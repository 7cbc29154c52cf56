import Myflix.Writes

/- The follow graph. Nothing in the Relationship model or in the schema keeps it
   sane: `can_follow?` guards the one way to follow somebody, sign-up with an
   invitation inserts two edges without a check. They are sound because the user
   is new, so that no edge can name it, and because the inviter is stored.

   What is proved:
     1. `follow_graph`: no user follows themselves, no edge is there twice, both
        ends of every edge are stored, and a sign-up with the token of a stored
        invitation adds the two edges between the new user and the inviter. -/
namespace Myflix
open Relational Rails Transition

/-- The inviter of every invitation is stored. `InvitationsController#create` writes the
    current user, and users are never removed. -/
def InvitersStored (s : Store) : Prop :=
  ∀ k i, s.invitations.get k = some i → (s.users.get i.inviterId).isSome

/-- Both ends of a relationship are stored users. -/
def EndsStored (s : Store) (r : Relationship) : Prop :=
  ∃ follower leader, r.followerId = some follower ∧ r.leaderId = some leader ∧
    (s.users.get follower).isSome ∧ (s.users.get leader).isSome

/-- A graph on the stored users: no loops, no edge twice. -/
structure FollowGraph (s : Store) : Prop where
  ends : ∀ k r, s.relationships.get k = some r → EndsStored s r
  loops : ∀ k r, s.relationships.get k = some r → r.followerId ≠ r.leaderId
  once : s.relationships.Unique (fun r => (r.followerId, r.leaderId))

/-! Edges. -/

section
variable {s s' : Store}

theorem InvitersStored.grow (h : InvitersStored s) (hk : Keeps s s') (hi : s'.invitations = s.invitations) :
    InvitersStored s' := by
  intro k i hg
  rw [hi] at hg
  exact hk.1 _ (h k i hg)

/-- More users and the same edges. -/
theorem FollowGraph.grow (h : FollowGraph s) (hk : Keeps s s') (hr : s'.relationships = s.relationships) :
    FollowGraph s' where
  ends := by
    intro k r hg
    rw [hr] at hg
    obtain ⟨follower, leader, hf, hl, hfs, hls⟩ := h.ends k r hg
    exact ⟨follower, leader, hf, hl, hk.1 _ hfs, hk.1 _ hls⟩
  loops := by
    rw [hr]
    exact h.loops
  once := by
    rw [hr]
    exact h.once

/-- An edge that was not there, between two stored users. -/
theorem FollowGraph.insert (h : FollowGraph s) {follower leader : Nat} (hf : (s.users.get follower).isSome)
    (hl : (s.users.get leader).isSome) (hne : follower ≠ leader)
    (hnew : ∀ k r, s.relationships.get k = some r → r.followerId = some follower → r.leaderId ≠ some leader) :
    FollowGraph { s with relationships := s.relationships.insert ⟨some leader, some follower⟩ } where
  ends := by
    intro k r hg
    rcases Table.get_insert_cases hg with ⟨rfl, -⟩ | hg
    · exact ⟨follower, leader, rfl, rfl, hf, hl⟩
    · exact h.ends k r hg
  loops := by
    intro k r hg
    rcases Table.get_insert_cases hg with ⟨rfl, -⟩ | hg
    · simpa using hne
    · exact h.loops k r hg
  once := by
    apply h.once.insert
    intro k r hk he
    simp only [Prod.mk.injEq] at he
    exact hnew k r hk he.1 he.2

theorem FollowGraph.delete (h : FollowGraph s) (id : Nat) :
    FollowGraph { s with relationships := s.relationships.delete id } where
  ends k r hg := h.ends k r (Table.get_of_get_delete hg)
  loops k r hg := h.loops k r (Table.get_of_get_delete hg)
  once := h.once.of_rows (fun _ r hg => ⟨r, Table.get_of_get_delete hg, rfl⟩)

theorem canFollow_new {u leader : Nat} (h : canFollow s u leader = true) :
    u ≠ leader ∧
      ∀ k r, s.relationships.get k = some r → r.followerId = some u → r.leaderId ≠ some leader := by
  simp only [canFollow, Bool.not_eq_true', Bool.or_eq_false_iff, beq_eq_false_iff_ne] at h
  refine ⟨h.2, ?_⟩
  intro k r hk hf hl
  have hno := List.any_eq_false.mp h.1 (k, r) (Table.get_eq_some.mp hk)
  simp [hf, hl] at hno

/-- No edge names a user that is not stored. -/
theorem FollowGraph.absent (h : FollowGraph s) {u : Nat} (hu : s.users.get u = none) {k : Nat} {r : Relationship}
    (hk : s.relationships.get k = some r) : r.followerId ≠ some u ∧ r.leaderId ≠ some u := by
  obtain ⟨follower, leader, hf, hl, hfs, hls⟩ := h.ends k r hk
  refine ⟨?_, ?_⟩
  · intro he
    rw [hf, Option.some.injEq] at he
    rw [he, hu] at hfs
    cases hfs
  · intro he
    rw [hl, Option.some.injEq] at he
    rw [he, hu] at hls
    cases hls

end

/-! Sign-up with an invitation. -/

section
variable {rand : Nat → String} {env : Env} {s : Store}

theorem addUser_keeps (rand : Nat → String) (s : Store) (u : NewUser) : Keeps s (s.addUser rand u) :=
  ⟨fun _ hk => isSome_insert _ hk, fun _ hk => hk⟩

theorem inviter_eq {s : Store} {i : Invitation} (h : (s.users.get i.inviterId).isSome) :
    i.inviter s = some i.inviterId := by simp [Invitation.inviter, h]

/-- With its inviter stored, an invitation links the new user with that inviter. -/
theorem signedUp_link (u : NewUser) {token : Param} {k : Nat} {i : Invitation}
    (hi : findInvitation env s token = some (k, i)) (hs : (s.users.get i.inviterId).isSome) :
    s.signedUp rand env u token = (s.addUser rand u).link s.users.next (some i.inviterId) := by
  have he : i.inviter (s.addUser rand u) = some i.inviterId := inviter_eq (isSome_insert _ hs)
  simp only [Store.signedUp, hi, he]

theorem FollowGraph.link (h : FollowGraph s) (u : NewUser) {inviter : Nat} (hs : (s.users.get inviter).isSome) :
    FollowGraph ((s.addUser rand u).link s.users.next (some inviter)) := by
  have hfresh : s.users.get s.users.next = none := Table.get_next _
  have hne : s.users.next ≠ inviter := by
    intro he
    rw [← he, hfresh] at hs
    cases hs
  have hnew : ((s.addUser rand u).users.get s.users.next).isSome := by simp [Store.addUser]
  have hold : ((s.addUser rand u).users.get inviter).isSome := isSome_insert _ hs
  have h1 : FollowGraph (s.addUser rand u) := h.grow (addUser_keeps rand s u) rfl
  have h2 := h1.insert hnew hold hne (fun k r hk hf => absurd hf (h.absent hfresh hk).1)
  refine h2.insert hold hnew (Ne.symm hne) ?_
  intro k r hk hf
  -- the edge inserted before goes the other way
  rcases Table.get_insert_cases hk with ⟨rfl, -⟩ | hk
  · simp only [Option.some.injEq] at hf
    exact absurd hf hne
  · exact (h.absent hfresh hk).2

end

/-! Runs. -/

section
variable {rand : Nat → String} {env : Env} {session : Option Nat} {s s' : Store} {req : Request}

theorem InvitersStored.effect (h : InvitersStored s) (he : Effect rand env session s req s') :
    InvitersStored s' := by
  rcases he.invitations_cases with hi | ⟨u, user, params, hu, rfl⟩
  · exact h.grow he.keeps hi
  · intro k i hg
    rcases Table.get_insert_cases hg with ⟨rfl, -⟩ | hg
    · show (s.users.get u).isSome
      simp [hu.2]
    · exact h k i hg

theorem FollowGraph.effect (h : FollowGraph s) (hi : InvitersStored s) (he : Effect rand env session s req s') :
    FollowGraph s' := by
  have hk := he.keeps
  cases he with
  | follow hu hl hc =>
    obtain ⟨hne, hnew⟩ := canFollow_new hc
    exact h.insert (by simp [hu.2]) (by simp [hl]) hne hnew
  | unfollow hu hr hown => exact h.delete _
  | @signUp params stripeToken token hv hf =>
    cases hfind : findInvitation env s token with
    | none => exact h.grow hk (by rw [signedUp_relationships, hfind])
    | some r =>
      have hs := hi r.1 r.2 (Table.findBy_some hfind).1
      rw [signedUp_link _ hfind hs]
      exact h.link _ hs
  | reorder hu hr => exact h.grow hk (updateQueueItems_frame hr).2.2.1
  | reset => exact h.grow hk (reset_relationships ..)
  | nothing | enqueue | dequeue | tidy | review | invite | addVideo => exact h.grow hk rfl

theorem followGraph_of_no_relationships (h : s.relationships.rows = []) : FollowGraph s := by
  refine ⟨?_, ?_, Table.unique_of_no_rows h⟩
  · intro k r hk
    exact absurd hk (Table.not_get_of_no_rows h)
  · intro k r hk
    exact absurd hk (Table.not_get_of_no_rows h)

/-- A sign-up reports success only after the user is stored. -/
theorem users_create_success {user : Option UserParams} {stripeToken token : Param}
    (h : (handle rand env s session (.usersCreate user stripeToken token)).response.reply = .redirectTo .login) :
    ∃ p, user = some p ∧ (handle rand env s session (.usersCreate user stripeToken token)).store =
      s.signedUp rand env (.new p env.salt) token := by
  cases user with
  | none => cases h
  | some p =>
    simp only [handle, users_create_eq] at h ⊢
    refine ⟨p, rfl, ?_⟩
    split at h
    · next hv =>
      split at h
      · next hc =>
        split at h
        · next hf =>
          simp only [hv, hc, hf, if_true]
          split <;> rfl
        · cases h
      · cases h
    · cases h

end

/-- The two edges between a new user and an inviter, at the end of the table. -/
def AddsMutualEdges (s s' : Store) (inviter : Nat) : Prop :=
  s.users.get s.users.next = none ∧ (s'.users.get s.users.next).isSome ∧
  s'.relationships.rows = s.relationships.rows ++
    [(s.relationships.next, ⟨some inviter, some s.users.next⟩),
     (s.relationships.next + 1, ⟨some s.users.next, some inviter⟩)]

/-- **The follow graph.** From a database without relationships, whatever requests are made: the
    relationships form a graph on the stored users without loops or repeated edges, and every
    sign-up that reports success with the token of a stored invitation adds exactly the edges
    from the new user to an inviter with that token and back. -/
theorem follow_graph (rand : Nat → String) (w : World) (h : w.store.relationships.rows = [])
    (hi : InvitersStored w.store) (es : List Event) :
    FollowGraph (run (World.step rand) w es).store ∧
    Along (World.step rand) (fun w e => ∀ user stripeToken token,
      e.request = .usersCreate user stripeToken token → (w.response rand e).reply = .redirectTo .login →
      (∃ k i, w.store.invitations.get k = some i ∧ i.token = token) →
      ∃ k i, w.store.invitations.get k = some i ∧ i.token = token ∧
        AddsMutualEdges w.store (w.step rand e).store i.inviterId) w es := by
  have hinv : ∀ es, InvitersStored (run (World.step rand) w es).store ∧
      FollowGraph (run (World.step rand) w es).store := by
    intro es
    refine run_inv (I := fun w : World => InvitersStored w.store ∧ FollowGraph w.store) ?_
      ⟨hi, followGraph_of_no_relationships h⟩ es
    intro x e hx
    exact ⟨hx.1.effect (step_effect rand x e), hx.2.effect hx.1 (step_effect rand x e)⟩
  refine ⟨(hinv es).2, ?_⟩
  intro pre e post _ user stripeToken token hreq hok hex
  obtain ⟨hstored, -⟩ := hinv pre
  generalize run (World.step rand) w pre = x at hstored hok hex ⊢
  have hst : (x.step rand e).store = (handle rand e.env x.store (x.sessions e.sid) e.request).store := rfl
  have hok' : (handle rand e.env x.store (x.sessions e.sid) e.request).response.reply = .redirectTo .login := hok
  rw [hreq] at hst hok'
  obtain ⟨p, rfl, hsigned⟩ := users_create_success hok'
  -- some invitation has the token, so one is found
  cases hf : findInvitation e.env x.store token with
  | none =>
    obtain ⟨k, i, hk, ht⟩ := hex
    have hno := Table.findBy_none.mp hf k i hk
    simp [ht] at hno
  | some r =>
    obtain ⟨hg, ht⟩ := Table.findBy_some hf
    have hs := hstored r.1 r.2 hg
    refine ⟨r.1, r.2, hg, by simpa using ht, Table.get_next _, ?_, ?_⟩
    · rw [hst, hsigned, signedUp_users]
      simp
    · rw [hst, hsigned, signedUp_link _ hf hs]
      simp [Store.link, Store.addUser]

/-- Alice invites carol, who signs up with the invitation and follows bob. -/
def inviting : List Event :=
  [Event.fair 1 (.invitationsCreate (some ⟨some "Carol", some "carol@example.com", some "Join!"⟩)),
   Event.fair 3 (.usersCreate (some ⟨some "carol", some "carol@example.com", some "password"⟩) none (some "")),
   Event.fair 3 (.sessionsCreate (some "carol@example.com") (some "password")),
   Event.fair 3 (.relationshipsCreate (some "2"))]

theorem follow_graph_small :
    (run (World.step tally) World.small inviting).store.relationships.rows =
      [(1, ⟨some 1, some 3⟩), (2, ⟨some 3, some 1⟩), (3, ⟨some 2, some 3⟩)] ∧
    FollowGraph (run (World.step tally) World.small inviting).store :=
  ⟨by decide, (follow_graph tally World.small rfl (fun k i hk => by cases hk) inviting).1⟩

end Myflix
