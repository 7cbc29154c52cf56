import Myflix.ConcurrentRequests

/- What overlapping requests do. A request that writes once has its effect in its
   last step, and if what it has read is still so, the step is the whole action
   (`advance_atOnce`). So the only question is whether a request was disturbed, and
   for the four writes that rest on a check it decides everything: an undisturbed
   step keeps the invariants of the application (`Inv.step`), a disturbed one breaks
   them (`Inv.undisturbed`). Unfollowing and inviting cannot be disturbed.

   What is proved:
     1. `overlapping_requests_consistent_iff`: queues, reviews, relationships and reset
        tokens stay as they are when requests come one at a time, exactly when no
        request is disturbed.
     2. `overlapping_requests_serializable`: then the requests have the effect of the
        same requests one at a time, in the order of their last statements. -/
namespace Myflix
open Relational Rails Transition Interleaving

namespace Overlapping

/-! One request at its last step. -/

section
variable {ι : Type} {rand : Nat → String} {session : ι → Option Nat} {job : ι → Job} {i : ι} {env : Env}
  {s : Store} {p : Phase}

/-- A step that is not the last one of its request only reads. -/
theorem advance_reads (h : p.isFinished = true ∨ (advance rand session i env s p).2.isFinished = false) :
    (advance rand session i env s p).1 = s := by
  cases p with
  | loading _ | findingVideo _ _ _ | findingLeader _ _ | readingFollowed _ _ | checkingVideo _ _
  | readingQueue _ _ | findingToken _ _ =>
    simp only [advance]
    split <;> rfl
  | readingReviews _ _ _ | findingFollow _ _ | findingEmail _ _ =>
    simp only [advance]
    split
    · rfl
    · split <;> rfl
  | countingQueue _ _ | finished _ => rfl
  | insertingReview _ _ _ | insertingFollow _ _ | deletingFollow _ | insertingItem _ _ _ | updatingUser _ _ _ =>
    rcases h with h | h <;> cases h
  | insertingInvitation _ _ =>
    simp only [advance] at h ⊢
    split
    · next hfit =>
      rw [if_pos hfit] at h
      rcases h with h | h <;> cases h
    · rfl
  | validating _ _ _ =>
    simp only [advance] at h ⊢
    split
    · rfl
    · next hv =>
      rw [if_neg hv] at h
      rcases h with h | h <;> cases h

/-- Without a user to act for, an action behind the login does nothing. -/
theorem handle_refused {session : Option Nat} {j : Job} (hj : ∀ token password, j ≠ .reset token password)
    (hc : (∃ e, currentUser s session = .error e) ∨ currentUser s session = .ok none) :
    (handle rand env s session j.request).store = s := by
  have hlogin : ∀ action, (requireLogin s session action).store = s := by
    intro action
    rcases hc with ⟨e, hc⟩ | hc
    · rw [requireLogin, hc]
      rfl
    · rw [requireLogin, hc]
      rfl
  cases j with
  | reset token password => exact absurd rfl (hj token password)
  | review _ _ | follow _ | unfollow _ | enqueue _ | invite _ => exact hlogin _

theorem find_of_fst {α : Type} {t : Table α} {q : Param} {k : Nat} (h : (find t q).map Prod.fst = some k) :
    ∃ a, find t q = some (k, a) := by
  obtain ⟨⟨j, a⟩, hf, rfl⟩ := Option.map_eq_some_iff.mp h
  exact ⟨a, hf⟩

theorem find_of_isSome {α : Type} {t : Table α} {q : Param} {k : Nat} (hkey : Param.key q = some k)
    (h : (t.get k).isSome) : ∃ a, find t q = some (k, a) := by
  obtain ⟨a, ha⟩ := Option.isSome_iff_exists.mp h
  exact ⟨a, by rw [find_of_key hkey, ha]; rfl⟩

/-- A row that is gone is not deleted again. -/
theorem delete_of_none {α : Type} {t : Table α} {k : Nat} (h : t.get k = none) : t.delete k = t := by
  apply Table.ext
  · apply List.filter_eq_self.mpr
    intro r hr
    have hne : r.1 ≠ k := by
      rintro rfl
      exact Table.get_eq_none.mp h r.2 hr
    simpa using hne
  · rfl

/-- If the step is the last one of its request, it is the whole action. -/
def AtOnce (rand : Nat → String) (session : ι → Option Nat) (job : ι → Job) (i : ι) (env : Env) (s : Store)
    (p : Phase) : Prop :=
  (advance rand session i env s p).2.isFinished = true →
    (advance rand session i env s p).1 = (handle rand env s (session i) (job i).request).store

theorem loading_atOnce {j} (hk : Knows session job rand s i (.loading j)) :
    AtOnce rand session job i env s (.loading j) := by
  intro hf
  obtain ⟨rfl, hreset⟩ := hk
  cases hc : currentUser s (session i) with
  | error e =>
    rw [handle_refused hreset (.inl ⟨e, hc⟩)]
    simp only [advance, hc]
  | ok o =>
    cases o with
    | none =>
      rw [handle_refused hreset (.inr hc)]
      simp only [advance, hc]
    | some r =>
      -- only an invitation without its parameter ends here
      simp only [advance, hc] at hf ⊢
      cases hj : job i with
      | invite params =>
        cases params with
        | none => simp [handle, Job.request, invitations.create, requireLogin, hc, reply]
        | some params =>
          rw [hj] at hf
          cases hf
      | reset token password => exact absurd hj (hreset token password)
      | review _ _ | follow _ | unfollow _ | enqueue _ =>
        rw [hj] at hf
        cases hf

theorem findingVideo_atOnce {u videoId params} (hk : Knows session job rand s i (.findingVideo u videoId params)) :
    AtOnce rand session job i env s (.findingVideo u videoId params) := by
  intro hf
  obtain ⟨hacts, hj⟩ := hk
  obtain ⟨user, hact⟩ := hacts.actsAs
  cases hv : find s.videos videoId with
  | none => simp [hj, Job.request, handle, reviews.create, requireLogin_of hact, hv, advance, reply]
  | some r =>
    cases params with
    | none => simp [hj, Job.request, handle, reviews.create, requireLogin_of hact, hv, advance, reply]
    | some params =>
      simp only [advance, hv] at hf
      cases hf

theorem readingReviews_atOnce {u v params} (hk : Knows session job rand s i (.readingReviews u v params)) :
    AtOnce rand session job i env s (.readingReviews u v params) := by
  intro hf
  obtain ⟨hacts, videoId, hj, hv⟩ := hk
  obtain ⟨user, hact⟩ := hacts.actsAs
  obtain ⟨x, hv⟩ := find_of_fst hv
  simp only [hj, Job.request, handle, reviews.create, requireLogin_of hact, hv]
  simp only [advance] at hf ⊢
  split
  · rfl
  · next hno =>
    rw [if_neg hno] at hf
    split
    · next hr =>
      rw [if_pos hr] at hf
      cases hf
    · rfl

theorem insertingReview_atOnce {u v params} (hk : Knows session job rand s i (.insertingReview u v params))
    (hu : undisturbed s (.insertingReview u v params) = true) :
    AtOnce rand session job i env s (.insertingReview u v params) := by
  intro _
  obtain ⟨hacts, hr, videoId, hj, hv⟩ := hk
  obtain ⟨user, hact⟩ := hacts.actsAs
  obtain ⟨x, hv⟩ := find_of_fst hv
  have hno : reviews.alreadyReviewed s u v = false := by simpa [undisturbed] using hu
  simp [hj, Job.request, handle, reviews.create, requireLogin_of hact, hv, hno, hr, advance, reply]

theorem findingLeader_atOnce {u leaderId} (hk : Knows session job rand s i (.findingLeader u leaderId)) :
    AtOnce rand session job i env s (.findingLeader u leaderId) := by
  intro hf
  obtain ⟨hacts, hj⟩ := hk
  obtain ⟨user, hact⟩ := hacts.actsAs
  cases hl : find s.users leaderId with
  | none => simp [hj, Job.request, handle, relationships.create, requireLogin_of hact, hl, advance, reply]
  | some r =>
    simp only [advance, hl] at hf
    cases hf

theorem readingFollowed_atOnce {u leader} (hk : Knows session job rand s i (.readingFollowed u leader)) :
    AtOnce rand session job i env s (.readingFollowed u leader) := by
  intro hf
  obtain ⟨hacts, leaderId, hj, hkey, hl⟩ := hk
  obtain ⟨user, hact⟩ := hacts.actsAs
  obtain ⟨x, hl⟩ := find_of_isSome hkey hl
  simp only [hj, Job.request, handle, relationships.create, requireLogin_of hact, hl]
  simp only [advance] at hf ⊢
  split
  · next hc =>
    rw [if_pos hc] at hf
    cases hf
  · rfl

theorem insertingFollow_atOnce {u leader} (hk : Knows session job rand s i (.insertingFollow u leader))
    (hu : undisturbed s (.insertingFollow u leader) = true) :
    AtOnce rand session job i env s (.insertingFollow u leader) := by
  intro _
  obtain ⟨hacts, hne, leaderId, hj, hkey, hl⟩ := hk
  obtain ⟨user, hact⟩ := hacts.actsAs
  obtain ⟨x, hl⟩ := find_of_isSome hkey hl
  have hno : follows s u leader = false := by simpa [undisturbed] using hu
  have hc : canFollow s u leader = true := by simp [canFollow, hno, hne]
  simp [hj, Job.request, handle, relationships.create, requireLogin_of hact, hl, hc, advance, reply]

theorem findingFollow_atOnce {u id} (hk : Knows session job rand s i (.findingFollow u id)) :
    AtOnce rand session job i env s (.findingFollow u id) := by
  intro hf
  obtain ⟨hacts, hj⟩ := hk
  obtain ⟨user, hact⟩ := hacts.actsAs
  cases hr : find s.relationships id with
  | none => simp [hj, Job.request, handle, relationships.destroy, requireLogin_of hact, hr, advance, reply]
  | some r =>
    simp only [hj, Job.request, handle, relationships.destroy, requireLogin_of hact, hr, advance] at hf ⊢
    split
    · next hown =>
      rw [if_pos hown] at hf
      cases hf
    · rfl

theorem deletingFollow_atOnce {k} (hk : Knows session job rand s i (.deletingFollow k)) :
    AtOnce rand session job i env s (.deletingFollow k) := by
  intro _
  obtain ⟨u, id, hacts, hj, hkey, -, hown⟩ := hk
  obtain ⟨user, hact⟩ := hacts.actsAs
  simp only [hj, Job.request, handle, relationships.destroy, requireLogin_of hact, find_of_key hkey, advance]
  cases hr : s.relationships.get k with
  | none =>
    -- somebody else's request was faster, and nothing is left to delete
    simp [reply, delete_of_none hr]
  | some r => simp [reply, hown r hr]

theorem checkingVideo_atOnce {u videoId} (hk : Knows session job rand s i (.checkingVideo u videoId)) :
    AtOnce rand session job i env s (.checkingVideo u videoId) := by
  intro hf
  obtain ⟨hacts, hj⟩ := hk
  obtain ⟨user, hact⟩ := hacts.actsAs
  simp only [hj, Job.request, handle, queueItems.create, requireLogin_of hact]
  simp only [advance] at hf ⊢
  split
  · next hv => simp [hv, reply]
  · next hv =>
    rw [if_neg hv] at hf
    cases hf

theorem readingQueue_atOnce {u videoId} (hk : Knows session job rand s i (.readingQueue u videoId)) :
    AtOnce rand session job i env s (.readingQueue u videoId) := by
  intro hf
  obtain ⟨hacts, hj, hv⟩ := hk
  obtain ⟨user, hact⟩ := hacts.actsAs
  simp only [hj, Job.request, handle, queueItems.create, requireLogin_of hact]
  simp only [advance] at hf ⊢
  split
  · next hin => simp [hin, reply]
  · next hin =>
    rw [if_neg hin] at hf
    cases hf

theorem insertingItem_atOnce {u videoId count} (hk : Knows session job rand s i (.insertingItem u videoId count))
    (hu : undisturbed s (.insertingItem u videoId count) = true) :
    AtOnce rand session job i env s (.insertingItem u videoId count) := by
  intro _
  obtain ⟨hacts, hj, hv⟩ := hk
  obtain ⟨user, hact⟩ := hacts.actsAs
  obtain ⟨hin, rfl⟩ : queueItems.videoAlreadyInUsersQueue s u videoId = false ∧ (s.queueOf u).length = count := by
    simpa [undisturbed] using hu
  simp [hj, Job.request, handle, queueItems.create, requireLogin_of hact, hin, hv, advance, reply,
    queueItems.createNewQueueItem]

theorem findingEmail_atOnce {u params} (hk : Knows session job rand s i (.findingEmail u params)) :
    AtOnce rand session job i env s (.findingEmail u params) := by
  intro hf
  obtain ⟨hacts, hj⟩ := hk
  obtain ⟨user, hact⟩ := hacts.actsAs
  cases hm : s.users.findBy env.take (fun user => user.email == params.friendEmail) with
  | some r => simp [hj, Job.request, handle, invitations.create, requireLogin_of hact, hm, advance, reply]
  | none =>
    simp only [hj, Job.request, handle, invitations.create, requireLogin_of hact, hm, advance] at hf ⊢
    split
    · next hvalid =>
      rw [if_pos hvalid] at hf
      cases hf
    · rfl

theorem insertingInvitation_atOnce {u params} (hk : Knows session job rand s i (.insertingInvitation u params)) :
    AtOnce rand session job i env s (.insertingInvitation u params) := by
  intro _
  obtain ⟨hacts, hj, hvalid, hno⟩ := hk
  obtain ⟨user, hact⟩ := hacts.actsAs
  have hm : s.users.findBy env.take (fun user => user.email == params.friendEmail) = none := by
    apply Table.findBy_none.mpr
    intro k x hx
    simpa using hno k x hx
  simp only [hj, Job.request, handle, invitations.create, requireLogin_of hact, hm, if_pos hvalid, advance]
  split
  · split <;> rfl
  · rfl

theorem findingToken_atOnce {token password} (hk : Knows session job rand s i (.findingToken token password)) :
    AtOnce rand session job i env s (.findingToken token password) := by
  intro hf
  have hj : job i = .reset token password := hk
  cases hm : s.users.findBy env.take (fun user => user.token == token) with
  | some r =>
    simp only [advance, hm] at hf
    cases hf
  | none => simp [hj, Job.request, handle, passwordResets.create, hm, advance, reply]

theorem validating_atOnce {id user password} (hk : Knows session job rand s i (.validating id user password))
    (ha : Accounts s) : AtOnce rand session job i env s (.validating id user password) := by
  intro hf
  obtain ⟨hj, x, hx, hname, hemail⟩ := hk
  -- the save goes through, so this is not the last step
  have hv := ha.identityValid hx
  rw [hname, hemail] at hv
  simp only [advance, if_pos hv] at hf
  cases hf

theorem updatingUser_atOnce {id user password} (hk : Knows session job rand s i (.updatingUser id user password))
    (ha : Accounts s) (htok : s.users.Unique User.token)
    (hu : undisturbed s (.updatingUser id user password) = true) :
    AtOnce rand session job i env s (.updatingUser id user password) := by
  intro _
  obtain ⟨hj, x, hx, hname, hemail⟩ := hk
  have ht : x.token = user.token := by simpa [undisturbed, hx] using hu
  have hm : s.users.findBy env.take (fun y => y.token == user.token) = some (id, x) := by
    apply Table.findBy_unique hx (by simpa using ht)
    intro j y hy hyt
    exact htok j id y x hy hx ((eq_of_beq hyt).trans ht.symm)
  simp only [hj, Job.request, handle, passwordResets.create, hm, advance, reply, passwordResets.reset, saveUser,
    if_pos (ha.identityValid hx)]
  congr 1
  exact Table.update_congr hx rfl

/-- The last step of an undisturbed request does what its action does at that moment. -/
theorem advance_atOnce (hk : Knows session job rand s i p) (ha : Accounts s) (htok : s.users.Unique User.token)
    (hu : undisturbed s p = true) (hp : p.isFinished = false) : AtOnce rand session job i env s p := by
  cases p with
  | finished _ => cases hp
  | loading _ => exact loading_atOnce hk
  | findingVideo _ _ _ => exact findingVideo_atOnce hk
  | readingReviews _ _ _ => exact readingReviews_atOnce hk
  | insertingReview _ _ _ => exact insertingReview_atOnce hk hu
  | findingLeader _ _ => exact findingLeader_atOnce hk
  | readingFollowed _ _ => exact readingFollowed_atOnce hk
  | insertingFollow _ _ => exact insertingFollow_atOnce hk hu
  | findingFollow _ _ => exact findingFollow_atOnce hk
  | deletingFollow _ => exact deletingFollow_atOnce hk
  | checkingVideo _ _ => exact checkingVideo_atOnce hk
  | readingQueue _ _ => exact readingQueue_atOnce hk
  | countingQueue _ _ =>
    intro hf
    cases hf
  | insertingItem _ _ _ => exact insertingItem_atOnce hk hu
  | findingEmail _ _ => exact findingEmail_atOnce hk
  | insertingInvitation _ _ => exact insertingInvitation_atOnce hk
  | findingToken _ _ => exact findingToken_atOnce hk
  | validating _ _ _ => exact validating_atOnce hk ha
  | updatingUser _ _ _ => exact updatingUser_atOnce hk ha htok hu

end

/-! The invariant. -/

/-- The request is a reset with the token, and has reported success. -/
def Accepted {ι : Type} (job : ι → Job) (c : Requests ι) (i : ι) (token : Param) : Prop :=
  (∃ password, job i = .reset token password) ∧
    c.phase i = .finished (redirectTo .login (some (.success "Password has been updated.")))

/-- What holds when requests come one at a time: queues are numbered and without repetition, nobody
    reviews a video twice or follows somebody twice, and a reset token is accepted once. -/
structure Consistent {ι : Type} (job : ι → Job) (c : Requests ι) : Prop where
  queues : QueueInv c.shared
  reviews : ReviewInv c.shared
  graph : FollowGraph c.shared
  resets : ∀ i j token, Accepted job c i token → Accepted job c j token → i = j

structure Inv {ι : Type} (rand : Nat → String) (sessions : Nat → Option Nat) (sid : ι → Nat) (job : ι → Job)
    (c : Requests ι) : Prop where
  app : AppInv ⟨c.shared, sessions⟩
  tokens : TokensIssued rand c.shared
  knows : ∀ i, Knows (fun i => sessions (sid i)) job rand c.shared i (c.phase i)
  -- a user who was found has the token still, or a reset with it was accepted since
  live : ∀ i id user password,
    c.phase i = .validating id user password ∨ c.phase i = .updatingUser id user password →
    (∃ x, c.shared.users.get id = some x ∧ x.token = user.token) ∨ ∃ j, Accepted job c j user.token
  spent : ∀ i token, Accepted job c i token → ∃ n, token = some (rand n) ∧ TokenSpent rand c.shared n
  resets : ∀ i j token, Accepted job c i token → Accepted job c j token → i = j

section
variable {ι : Type} {rand : Nat → String} {sessions : Nat → Option Nat} {sid : ι → Nat} {job : ι → Job}
  {c : Requests ι}

theorem Inv.consistent (h : Inv rand sessions sid job c) : Consistent job c :=
  ⟨h.app.queues, h.app.reviews, h.app.graph, h.resets⟩

theorem start_cases (j : Job) : j.start = .loading j ∨ ∃ token password, j.start = .findingToken token password := by
  cases j with
  | reset token password => exact .inr ⟨token, password, rfl⟩
  | review _ _ | follow _ | unfollow _ | enqueue _ | invite _ => exact .inl rfl

theorem inv_start {w : World} (h : AppInv w) (ht : TokensIssued rand w.store) :
    Inv rand w.sessions sid job (Requests.start w.store job) := by
  have hnone : ∀ i token, ¬ Accepted job (Requests.start w.store job) i token := by
    rintro i token ⟨-, hf⟩
    have hf : (job i).start = _ := hf
    rcases start_cases (job i) with hs | ⟨t, q, hs⟩
    · rw [hs] at hf
      cases hf
    · rw [hs] at hf
      cases hf
  refine ⟨h, ht, knows_start, ?_, fun i token ha => absurd ha (hnone i token),
    fun i j token ha => absurd ha (hnone i token)⟩
  intro i id user password hp
  have hp : (job i).start = _ ∨ (job i).start = _ := hp
  rcases start_cases (job i) with hs | ⟨t, q, hs⟩
  · rw [hs] at hp
    rcases hp with hp | hp <;> cases hp
  · rw [hs] at hp
    rcases hp with hp | hp <;> cases hp

/-- The user of an undisturbed reset. -/
theorem Inv.updating (h : Inv rand sessions sid job c) {turn : ι × Env} (hu : Undisturbed c turn) {id : Nat} {user : User}
    {password : Param} (hp : c.phase turn.1 = .updatingUser id user password) :
    ∃ x, c.shared.users.get id = some x ∧ x.token = user.token := by
  have hk := h.knows turn.1
  rw [hp] at hk
  obtain ⟨-, x, hx, -⟩ := hk
  rw [Undisturbed, hp] at hu
  exact ⟨x, hx, by simpa [undisturbed, hx] using hu⟩

end

/-! A step that is disturbed. -/

theorem undisturbed_review {s : Store} {u v : Nat} {rating content : Param} (hr : ratingValid rating = true)
    (h : ReviewInv (createReview s u v rating content)) : reviews.alreadyReviewed s u v = false := by
  by_contra hno
  simp only [reviews.alreadyReviewed, Bool.not_eq_false, List.any_eq_true, Bool.and_eq_true, beq_iff_eq] at hno
  obtain ⟨⟨k, r⟩, hmem, hv, hu⟩ := hno
  have hk : s.reviews.get k = some r := Table.get_eq_some.mpr hmem
  rw [createReview, if_pos hr] at h
  have heq := h.once k s.reviews.next r _ (Table.get_insert_of_some _ hk) (Table.get_insert_self _ _)
    (Prod.ext hu hv)
  exact absurd (Table.get_lt_next hk) (by omega)

theorem undisturbed_follow {s : Store} {u leader : Nat}
    (h : FollowGraph { s with relationships := s.relationships.insert ⟨some leader, some u⟩ }) :
    follows s u leader = false := by
  by_contra hno
  obtain ⟨k, r, hk, hu, hl⟩ := follows_iff.mp (by simpa using hno)
  have heq := h.once k s.relationships.next r _ (Table.get_insert_of_some _ hk) (Table.get_insert_self _ _)
    (by simp [hu, hl])
  exact absurd (Table.get_lt_next hk) (by omega)

theorem undisturbed_item {s : Store} (hs : QueueInv s) {u count : Nat} {videoId : Param}
    (h : QueueInv { s with queueItems := s.queueItems.insert ⟨u, videoId.toI.toNat, (count : Int) + 1⟩ }) :
    queueItems.videoAlreadyInUsersQueue s u videoId = false ∧ (s.queueOf u).length = count := by
  have hqueue := queueOf_insert s ⟨u, videoId.toI.toNat, (count : Int) + 1⟩ u
  rw [if_pos rfl] at hqueue
  constructor
  · have hnd := h.nodup u
    rw [hqueue, List.map_append, List.map_singleton, List.nodup_append] at hnd
    by_contra hin
    simp only [queueItems.videoAlreadyInUsersQueue, Bool.not_eq_false, List.any_eq_true, beq_iff_eq] at hin
    obtain ⟨r, hr, he⟩ := hin
    exact hnd.2.2 r.2.videoId (List.mem_map_of_mem hr) videoId.toI.toNat (List.mem_singleton_self _) (by omega)
  · have hnum := h.numbered u
    rw [hqueue] at hnum
    have := (hs.numbered u).last hnum
    simp only at this
    omega

section
variable {ι : Type} {rand : Nat → String}

/-! Requests one at a time. -/

theorem isFinished_advance {session : ι → Option Nat} (i : ι) (env : Env) (s : Store) (p : Phase)
    (h : p.isFinished = true) : (advance rand session i env s p).2.isFinished = true := by
  cases p with
  | finished r => rfl
  | _ => cases h

/-- These requests leave the cookies as they are. -/
theorem step_job (w : World) (b : Nat) (j : Job) (env : Env) :
    w.step rand ⟨b, j.request, env⟩ = ⟨(handle rand env w.store (w.sessions b) j.request).store, w.sessions⟩ := by
  have hs : (handle rand env w.store (w.sessions b) j.request).session = w.sessions b := by
    rcases handle_session rand env w.store (w.sessions b) j.request with h | h | ⟨email, password, h⟩
    · exact h
    · cases j <;> cases h
    · cases j <;> cases h
  unfold World.step World.outcome
  rw [hs, Function.update_eq_self]

theorem run_jobs (w : World) (sid : ι → Nat) (job : ι → Job) (turns : List (ι × Env)) :
    run (World.step rand) w (turns.map (fun t => ⟨sid t.1, (job t.1).request, t.2⟩)) =
      ⟨run (fun s t => (handle rand t.2 s (w.sessions (sid t.1)) (job t.1).request).store) w.store turns,
        w.sessions⟩ := by
  induction turns generalizing w with
  | nil => rfl
  | cons t turns ih =>
    rw [List.map_cons, run_cons, step_job, ih, run_cons]

end

/-! Steps. -/

/-- One statement of one request; request `i` comes from the browser session `sid i`. -/
abbrev Requests.next {ι : Type} [DecidableEq ι] (rand : Nat → String) (sessions : Nat → Option Nat) (sid : ι → Nat) :
    Requests ι → ι × Env → Requests ι :=
  Pool.step (advance rand (fun i => sessions (sid i)))

section
variable {ι : Type} [DecidableEq ι] {rand : Nat → String} {sessions : Nat → Option Nat} {sid : ι → Nat}
  {job : ι → Job} {c : Requests ι} {turn : ι × Env}

/-- A step that does not finish its request leaves the store. -/
theorem next_reads (hf : ¬ Pool.Finishes (advance rand (fun i => sessions (sid i))) Phase.isFinished c turn) :
    (Requests.next rand sessions sid c turn).shared = c.shared := by
  rw [Pool.Finishes, Pool.step_phase_self, not_and_or] at hf
  refine advance_reads (hf.imp ?_ ?_)
  · intro hp
    simpa using hp
  · intro hp
    simpa using hp

/-- A step that finishes its request undisturbed is the request's action. -/
theorem Inv.atOnce (h : Inv rand sessions sid job c) (hu : Undisturbed c turn) :
    Pool.AtOnce (advance rand (fun i => sessions (sid i))) Phase.isFinished
      (fun i env s => (handle rand env s (sessions (sid i)) (job i).request).store) c turn := by
  rintro ⟨hp, hf⟩
  rw [Pool.step_phase_self] at hf
  exact advance_atOnce (h.knows turn.1) h.app.accounts h.tokens.distinct hu hp hf

/-- The store after an undisturbed step. -/
theorem Inv.effect (h : Inv rand sessions sid job c) (hu : Undisturbed c turn) :
    Effect rand turn.2 (sessions (sid turn.1)) c.shared (job turn.1).request
      (Requests.next rand sessions sid c turn).shared := by
  by_cases hf : Pool.Finishes (advance rand (fun i => sessions (sid i))) Phase.isFinished c turn
  · rw [h.atOnce hu hf]
    exact handle_effect _
  · rw [next_reads hf]
    exact .nothing _

theorem appInv_effect {s s' : Store} {env : Env} {session : Option Nat} {req : Request}
    (h : AppInv ⟨s, sessions⟩) (he : Effect rand env session s req s') : AppInv ⟨s', sessions⟩ :=
  ⟨h.accounts.effect he, h.secrets.effect h.accounts he, h.queues.effect he, h.reviews.effect he,
    h.inviters.effect he, h.graph.effect h.inviters he, fun sid u hs => he.keeps.1 u (h.sessions sid u hs)⟩

/-- An answer stays. -/
theorem Accepted.step {i : ι} {token : Param} (h : Accepted job c i token) :
    Accepted job (Requests.next rand sessions sid c turn) i token := by
  refine ⟨h.1, ?_⟩
  by_cases hi : i = turn.1
  · subst hi
    rw [Pool.step_phase_self, h.2]
    rfl
  · rw [Pool.step_phase_ne c hi]
    exact h.2

/-- A reset is accepted in the step that writes the user. -/
theorem Inv.accepted_cases (h : Inv rand sessions sid job c) {i : ι} {token : Param}
    (ha : Accepted job (Requests.next rand sessions sid c turn) i token) :
    Accepted job c i token ∨ i = turn.1 ∧ ∃ id user password,
      c.phase turn.1 = .updatingUser id user password ∧ user.token = token := by
  by_cases hi : i = turn.1
  · obtain ⟨⟨password, hj⟩, hp⟩ := ha
    subst hi
    rw [Pool.step_phase_self] at hp
    have hk := h.knows turn.1
    -- the phases of the other requests contradict the job
    cases hphase : c.phase turn.1 with
    | finished r =>
      rw [hphase] at hp
      exact .inl ⟨⟨password, hj⟩, hphase.trans hp⟩
    | updatingUser id user q =>
      rw [hphase] at hk
      obtain ⟨hj', -⟩ := hk
      rw [hj] at hj'
      exact .inr ⟨rfl, id, user, q, rfl, (Job.reset.inj hj').1.symm⟩
    | validating id user q =>
      rw [hphase] at hk hp
      obtain ⟨-, x, hx, hname, hemail⟩ := hk
      have hv := h.app.accounts.identityValid hx
      rw [hname, hemail] at hv
      simp only [advance, if_pos hv] at hp
      cases hp
    | findingToken t q =>
      rw [hphase] at hp
      simp only [advance] at hp
      split at hp <;> cases hp
    | loading j =>
      rw [hphase] at hk
      exact absurd (hk.1.symm.trans hj) (hk.2 token password)
    | deletingFollow k =>
      rw [hphase] at hk
      obtain ⟨u, id, -, hj', -⟩ := hk
      rw [hj] at hj'
      cases hj'
    | readingReviews _ _ _ | readingFollowed _ _ =>
      rw [hphase] at hk
      obtain ⟨-, q, hj', -⟩ := hk
      rw [hj] at hj'
      cases hj'
    | insertingReview _ _ _ | insertingFollow _ _ =>
      rw [hphase] at hk
      obtain ⟨-, -, q, hj', -⟩ := hk
      rw [hj] at hj'
      cases hj'
    | findingVideo _ _ _ | findingLeader _ _ | findingFollow _ _ | checkingVideo _ _ | findingEmail _ _ =>
      rw [hphase] at hk
      obtain ⟨-, hj'⟩ := hk
      rw [hj] at hj'
      cases hj'
    | readingQueue _ _ | countingQueue _ _ | insertingItem _ _ _ | insertingInvitation _ _ =>
      rw [hphase] at hk
      obtain ⟨-, hj', -⟩ := hk
      rw [hj] at hj'
      cases hj'
  · refine .inl ⟨ha.1, ?_⟩
    rw [← Pool.step_phase_ne c hi]
    exact ha.2

theorem Inv.spent_step (hr : Function.Injective rand) (h : Inv rand sessions sid job c) (hu : Undisturbed c turn)
    (i : ι) (token : Param) (ha : Accepted job (Requests.next rand sessions sid c turn) i token) :
    ∃ n, token = some (rand n) ∧ TokenSpent rand (Requests.next rand sessions sid c turn).shared n := by
  rcases h.accepted_cases ha with ha | ⟨rfl, id, user, password, hp, rfl⟩
  · obtain ⟨n, hn, hspent⟩ := h.spent i token ha
    exact ⟨n, hn, tokenSpent_effect hr h.app.accounts hspent (h.effect hu)⟩
  · obtain ⟨x, hx, hxt⟩ := h.updating hu hp
    have hk := h.knows turn.1
    rw [hp] at hk
    have hstore := h.atOnce hu ⟨by rw [hp]; rfl, by rw [Pool.step_phase_self, hp]; rfl⟩
    rw [show (Requests.next rand sessions sid c turn).shared = _ from hstore]
    simp only [hk.1, Job.request, handle]
    rcases passwordResets_create_cases rand turn.2 c.shared (sessions (sid turn.1)) user.token password
      with ⟨k, y, hy, hyt, heq⟩ | ⟨hnone, -⟩
    · rw [heq, ← hyt]
      exact tokenSpent_reset turn.2 hr h.app.accounts h.tokens hy password
    · exact absurd hxt (hnone id x hx)

theorem Inv.resets_step (h : Inv rand sessions sid job c) (hu : Undisturbed c turn) (i j : ι) (token : Param)
    (hi : Accepted job (Requests.next rand sessions sid c turn) i token)
    (hj : Accepted job (Requests.next rand sessions sid c turn) j token) : i = j := by
  -- a token that was accepted before is nobody's any more
  have hold : ∀ k, Accepted job c k token → ∀ id user password,
      c.phase turn.1 = .updatingUser id user password → user.token ≠ token := by
    intro k hk id user password hp ht
    obtain ⟨n, hn, hspent⟩ := h.spent k token hk
    obtain ⟨x, hx, hxt⟩ := h.updating hu hp
    exact hspent.gone id x hx (by rw [hxt, ht, hn])
  rcases h.accepted_cases hi with hi | ⟨rfl, id, user, password, hp, ht⟩
  · rcases h.accepted_cases hj with hj | ⟨rfl, id, user, password, hp, ht⟩
    · exact h.resets i j token hi hj
    · exact absurd ht (hold i hi id user password hp)
  · rcases h.accepted_cases hj with hj | ⟨rfl, -⟩
    · exact absurd ht (hold j hj id user password hp)
    · rfl

/-- A user who was found keeps the token through the step of another request, or that step is the
    acceptance of a reset with it. -/
theorem Inv.live_step (h : Inv rand sessions sid job c) (hu : Undisturbed c turn) {id : Nat} {user : User}
    (hl : (∃ x, c.shared.users.get id = some x ∧ x.token = user.token) ∨ ∃ j, Accepted job c j user.token) :
    (∃ x, (Requests.next rand sessions sid c turn).shared.users.get id = some x ∧ x.token = user.token) ∨
      ∃ j, Accepted job (Requests.next rand sessions sid c turn) j user.token := by
  rcases hl with ⟨x, hx, hxt⟩ | ⟨j, hj⟩
  · rcases advance_users (p := c.phase turn.1) with hs | ⟨k, y, password, hp⟩
    · refine .inl ⟨x, ?_, hxt⟩
      show (advance rand _ turn.1 turn.2 c.shared (c.phase turn.1)).1.users.get id = some x
      rw [hs]
      exact hx
    · by_cases hid : id = k
      · subst hid
        obtain ⟨z, hz, hzt⟩ := h.updating hu hp
        obtain rfl : x = z := Option.some.inj (hx.symm.trans hz)
        have hk := h.knows turn.1
        rw [hp] at hk
        refine .inr ⟨turn.1, ⟨password, ?_⟩, ?_⟩
        · rw [← hxt, hzt]
          exact hk.1
        · rw [Pool.step_phase_self, hp]
          rfl
      · refine .inl ⟨x, ?_, hxt⟩
        show (advance rand _ turn.1 turn.2 c.shared (c.phase turn.1)).1.users.get id = some x
        rw [hp]
        show (c.shared.users.update k _).get id = some x
        rw [Table.get_update_ne _ hid]
        exact hx
  · exact .inr ⟨j, hj.step⟩

/-- **An undisturbed step keeps the invariant.** -/
theorem Inv.step (hr : Function.Injective rand) (h : Inv rand sessions sid job c) (hu : Undisturbed c turn) :
    Inv rand sessions sid job (Requests.next rand sessions sid c turn) where
  app := appInv_effect h.app (h.effect hu)
  tokens := tokensIssued_effect hr h.app.accounts h.tokens (h.effect hu)
  knows := Pool.all_step (L := fun i s p => Knows (fun i => sessions (sid i)) job rand s i p)
    (h.knows turn.1).advance (fun j _ => (h.knows j).grows advance_grows)
  live := by
    intro i id user password hp
    by_cases hi : i = turn.1
    · subst hi
      rw [Pool.step_phase_self] at hp
      refine h.live_step hu ?_
      rcases advance_found hp with ⟨hx, -⟩ | hp
      · exact .inl ⟨user, hx, rfl⟩
      · exact h.live turn.1 id user password (.inl hp)
    · rw [Pool.step_phase_ne c hi] at hp
      exact h.live_step hu (h.live i id user password hp)
  spent := h.spent_step hr hu
  resets := h.resets_step hu

/-- **A disturbed step breaks consistency.** -/
theorem Inv.undisturbed (h : Inv rand sessions sid job c)
    (hc : Consistent job (Requests.next rand sessions sid c turn)) : Undisturbed c turn := by
  have hk := h.knows turn.1
  obtain ⟨hqueue, hrev, hgraph, hresets⟩ := hc
  have hstore : (Requests.next rand sessions sid c turn).shared =
      (advance rand (fun i => sessions (sid i)) turn.1 turn.2 c.shared (c.phase turn.1)).1 := rfl
  rw [hstore] at hqueue hrev hgraph
  unfold Undisturbed
  cases hp : c.phase turn.1 with
  | insertingReview u v params =>
    rw [hp] at hk hrev
    simpa [Overlapping.undisturbed] using undisturbed_review hk.2.1 hrev
  | insertingFollow u leader =>
    rw [hp] at hgraph
    simpa [Overlapping.undisturbed] using undisturbed_follow hgraph
  | insertingItem u videoId count =>
    rw [hp] at hqueue
    simpa [Overlapping.undisturbed] using undisturbed_item h.app.queues hqueue
  | updatingUser id user password =>
    rw [hp] at hk
    rcases h.live turn.1 id user password (.inr hp) with ⟨x, hx, hxt⟩ | ⟨j, hj⟩
    · simp [Overlapping.undisturbed, hx, hxt]
    · -- a second reset would be accepted with the token
      have hnow : Accepted job (Requests.next rand sessions sid c turn) turn.1 user.token := by
        refine ⟨⟨password, hk.1⟩, ?_⟩
        rw [Pool.step_phase_self, hp]
        rfl
      obtain rfl := hresets j turn.1 user.token hj.step hnow
      have := hj.2
      rw [hp] at this
      cases this
  | loading _ | findingVideo _ _ _ | readingReviews _ _ _ | findingLeader _ _ | readingFollowed _ _
  | findingFollow _ _ | deletingFollow _ | checkingVideo _ _ | readingQueue _ _ | countingQueue _ _
  | findingEmail _ _ | insertingInvitation _ _ | findingToken _ _ | validating _ _ _ | finished _ => rfl

end

/-- **When overlapping requests go wrong.** Any number of requests that write once, in any
    interleaving of their statements, from every state with the invariants: queues stay numbered and
    without repetition, no review and no relationship is doubled and no reset token is accepted
    twice, exactly when every request finds what its write rests on as it had read it. -/
theorem overlapping_requests_consistent_iff {ι : Type} [DecidableEq ι] (rand : Nat → String)
    (hr : Function.Injective rand) (w : World) (h : AppInv w) (ht : TokensIssued rand w.store) (sid : ι → Nat)
    (job : ι → Job) (turns : List (ι × Env)) :
    Always (Requests.next rand w.sessions sid) (Consistent job) (Requests.start w.store job) turns ↔
      Along (Requests.next rand w.sessions sid) Undisturbed (Requests.start w.store job) turns :=
  run_iff_while (I := Inv rand w.sessions sid job) (fun _ _ hc hu => hc.step hr hu)
    (fun _ _ hc hq => hc.undisturbed hq) (fun _ hc => hc.consistent) (inv_start h ht) turns

/-- Alice and bob sign up, and alice logs in. -/
def arriving : List Event :=
  signingUp ++ [Event.fair 1 (.sessionsCreate (some "alice@example.com") (some "password"))]

/-- Alice clicks on "Follow" twice. -/
def twice : Bool → Job := fun _ => .follow (some "2")

/-- The clicks overlap: both load the user and the leader, and then the second one looks for the
    relationship after the first has written it, or both look before either writes. -/
def patient : List (Bool × Env) := [true, false, true, false, true, true, false].map (fun i => (i, .fair))
def hasty : List (Bool × Env) := [true, false, true, false, true, false, true, false].map (fun i => (i, .fair))

theorem tokens_arrived : Tokens tally (run (World.step tally) World.stocked arriving) :=
  run_inv (fun _ e hw => hw.step tally_injective e) stocked_new.tokens arriving

theorem overlapping_requests_consistent_iff_small :
    let w := run (World.step tally) World.stocked arriving
    Always (Requests.next tally w.sessions (fun _ => 1)) (Consistent twice) (Requests.start w.store twice) patient ∧
      ¬ Always (Requests.next tally w.sessions (fun _ => 1)) (Consistent twice) (Requests.start w.store twice) hasty := by
  intro w
  have h := overlapping_requests_consistent_iff tally tally_injective w tokens_arrived.app tokens_arrived.users
    (fun _ : Bool => 1) twice
  exact ⟨(h patient).mpr (by decide), mt (h hasty).mp (by decide)⟩

/-- **Overlapping requests as requests one at a time.** If no request is disturbed, the store is the
    one the application would have left by handling the requests that have finished one at a time,
    each once and in the order of their last statements. -/
theorem overlapping_requests_serializable {ι : Type} [DecidableEq ι] (rand : Nat → String)
    (hr : Function.Injective rand) (w : World) (h : AppInv w) (ht : TokensIssued rand w.store) (sid : ι → Nat)
    (job : ι → Job) (turns : List (ι × Env))
    (hu : Along (Requests.next rand w.sessions sid) Undisturbed (Requests.start w.store job) turns) :
    let c := run (Requests.next rand w.sessions sid) (Requests.start w.store job) turns
    let done := Pool.commits (advance rand (fun i => w.sessions (sid i))) Phase.isFinished
      (Requests.start w.store job) turns
    c.shared = (run (World.step rand) w (done.map (fun t => ⟨sid t.1, (job t.1).request, t.2⟩))).store ∧
      (done.map Prod.fst).Nodup ∧ ∀ i, i ∈ done.map Prod.fst ↔ (c.phase i).isFinished = true := by
  intro c done
  have hstay : ∀ i env s p, Phase.isFinished p = true →
      (advance rand (fun i => w.sessions (sid i)) i env s p).2.isFinished = true := isFinished_advance
  refine ⟨?_, Pool.commits_nodup hstay _ _, ?_⟩
  · have hatOnce : Along (Requests.next rand w.sessions sid)
        (Pool.AtOnce (advance rand (fun i => w.sessions (sid i))) Phase.isFinished
          (fun i env s => (handle rand env s (w.sessions (sid i)) (job i).request).store))
        (Requests.start w.store job) turns := by
      intro pre t post hturns
      have hinv : Inv rand w.sessions sid job
          (run (Requests.next rand w.sessions sid) (Requests.start w.store job) pre) := by
        refine run_inv_of (fun _ _ hc hu => hc.step hr hu) (inv_start h ht) pre ?_
        intro pre' t' post' hpre
        exact hu pre' t' (post' ++ t :: post) (by rw [hturns, hpre]; simp)
      exact hinv.atOnce (hu pre t post hturns)
    rw [run_jobs]
    exact Pool.run_eq_commits (fun c t hf => next_reads hf) hatOnce
  · intro i
    rw [Pool.mem_commits hstay]
    refine ⟨fun hi => hi.2, fun hi => ⟨?_, hi⟩⟩
    show (job i).start.isFinished = false
    rcases start_cases (job i) with hs | ⟨token, password, hs⟩
    · rw [hs]
      rfl
    · rw [hs]
      rfl

theorem overlapping_requests_serializable_small :
    let w := run (World.step tally) World.stocked arriving
    let done := Pool.commits (advance tally (fun _ => w.sessions 1)) Phase.isFinished (Requests.start w.store twice)
      patient
    (run (Requests.next tally w.sessions (fun _ => 1)) (Requests.start w.store twice) patient).shared =
        (run (World.step tally) w (done.map (fun t => ⟨1, (twice t.1).request, t.2⟩))).store ∧
      done.map Prod.fst = [true, false] := by
  intro w done
  refine ⟨?_, by decide⟩
  exact (overlapping_requests_serializable tally tally_injective w tokens_arrived.app tokens_arrived.users
    (fun _ : Bool => 1) twice patient (by decide)).1

end Overlapping

end Myflix
