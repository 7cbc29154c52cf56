import Myflix.Queue

/- Table by table: which requests write it, and what they leave there. Each lemma
   reads one table off `Effect`; the properties of users, relationships and
   invitations are proved from these. -/
namespace Myflix
open Relational Rails Transition

section
variable {rand : Nat → String} {env : Env} {session : Option Nat} {s s' : Store} {req : Request}

/-- Users are added by sign-up and rewritten by a reset, and by nothing else. -/
theorem Effect.users_cases (he : Effect rand env session s req s') :
    s'.users = s.users ∨
    (∃ params stripeToken token, req = .usersCreate (some params) stripeToken token ∧
      (NewUser.new params env.salt).valid s.users = true ∧ (NewUser.new params env.salt).fits = true ∧
      s' = s.signedUp rand env (.new params env.salt) token) ∨
    ∃ token password id user, req = .passwordResetsCreate token password ∧ s.users.get id = some user ∧
      user.token = token ∧ s' = passwordResets.reset rand env s id user password := by
  cases he with
  | @signUp params stripeToken token hv hf => exact .inr (.inl ⟨params, stripeToken, token, rfl, hv, hf, rfl⟩)
  | @reset token password id user hid ht => exact .inr (.inr ⟨token, password, id, user, rfl, hid, ht, rfl⟩)
  | reorder hu hr => exact .inl (updateQueueItems_frame hr).1
  | nothing | enqueue | dequeue | tidy | review | follow | unfollow | invite | addVideo => exact .inl rfl

theorem Effect.videos_cases (he : Effect rand env session s req s') :
    s'.videos = s.videos ∨ ∃ u user v, ActsAs s session u user ∧ user.admin = some true ∧
      s'.videos = s.videos.insert v := by
  cases he with
  | addVideo hu hadmin => exact .inr ⟨_, _, _, hu, hadmin, rfl⟩
  | signUp => exact .inl (signedUp_videos ..)
  | reset => exact .inl (reset_videos ..)
  | reorder hu hr => exact .inl (updateQueueItems_frame hr).2.1
  | nothing | enqueue | dequeue | tidy | review | follow | unfollow | invite => exact .inl rfl

/-- Relationships are added by their own controller and by sign-up, and removed by the former. -/
theorem Effect.relationships_cases (he : Effect rand env session s req s') :
    s'.relationships = s.relationships ∨
    (∃ u user leader leaderUser, ActsAs s session u user ∧ s.users.get leader = some leaderUser ∧
      canFollow s u leader = true ∧ s'.users = s.users ∧
      s'.relationships = s.relationships.insert ⟨some leader, some u⟩) ∨
    (∃ u user id r, ActsAs s session u user ∧ s.relationships.get id = some r ∧ r.followerId = some u ∧
      s'.users = s.users ∧ s'.relationships = s.relationships.delete id) ∨
    ∃ params stripeToken token k i, req = .usersCreate (some params) stripeToken token ∧
      findInvitation env s token = some (k, i) ∧
      s'.users = s.users.insert ((NewUser.new params env.salt).row rand s) ∧
      s'.relationships = (s.relationships.insert ⟨i.inviter s', some s.users.next⟩).insert
        ⟨some s.users.next, i.inviter s'⟩ := by
  cases he with
  | follow hu hl hc => exact .inr (.inl ⟨_, _, _, _, hu, hl, hc, rfl, rfl⟩)
  | unfollow hu hr hown => exact .inr (.inr (.inl ⟨_, _, _, _, hu, hr, hown, rfl, rfl⟩))
  | @signUp params stripeToken token hv hf =>
    cases hi : findInvitation env s token with
    | none => exact .inl (by rw [signedUp_relationships, hi])
    | some r =>
      have he : r.2.inviter (s.signedUp rand env (.new params env.salt) token) =
          r.2.inviter (s.addUser rand (.new params env.salt)) := by
        simp only [Invitation.inviter, signedUp_users]
        rfl
      refine .inr (.inr (.inr ⟨params, stripeToken, token, r.1, r.2, rfl, hi, signedUp_users .., ?_⟩))
      rw [he, signedUp_relationships, hi]
  | reset => exact .inl (reset_relationships ..)
  | reorder hu hr => exact .inl (updateQueueItems_frame hr).2.2.1
  | nothing | enqueue | dequeue | tidy | review | invite | addVideo => exact .inl rfl

theorem Effect.invitations_cases (he : Effect rand env session s req s') :
    s'.invitations = s.invitations ∨ ∃ u user params, ActsAs s session u user ∧
      s' = { s with
        invitations := s.invitations.insert (invitations.newInvitation rand s u params).stored
        drawn := s.drawn + 1 } := by
  cases he with
  | invite hu => exact .inr ⟨_, _, _, hu, rfl⟩
  | signUp => exact .inl (signedUp_invitations ..)
  | reset => exact .inl (reset_invitations ..)
  | reorder hu hr => exact .inl (updateQueueItems_frame hr).2.2.2.1
  | nothing | enqueue | dequeue | tidy | review | follow | unfollow | addVideo => exact .inl rfl

/-- SecureRandom never goes back. -/
theorem Effect.drawn_le (he : Effect rand env session s req s') : s.drawn ≤ s'.drawn := by
  cases he with
  | invite | signUp | reset => simp
  | reorder hu hr => exact Nat.le_of_eq (updateQueueItems_frame hr).2.2.2.2.symm
  | nothing | enqueue | dequeue | tidy | review | follow | unfollow | addVideo => exact Nat.le_refl _

end

end Myflix
