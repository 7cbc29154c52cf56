import Myflix.Refinement

/- What people are told. An action answers with a message (`flash[:success]`,
   `flash[:danger]`) or ends in an exception, and the message is written beside the
   code that does the work, not derived from it. `Reports` says which action of the
   site a success reports; a failure and an exception report that nothing happened.

   What is proved:
     1. `messages_true_iff`: along every run, a failure that is reported has changed
        nothing, and a success that is reported has happened, but for the removal of
        somebody else's queue item and a reset to a blank password.
     2. `exceptions_harmless_iff`: along every run, an exception leaves everything as
        it was, but for a sign-up or an invitation whose mail cannot be sent. -/
namespace Myflix
open Relational Rails Transition

/-! What an action has found when it reports a success. -/

inductive Done (env : Env) (s : Store) (session : Option Nat) : Request → Prop
  | enqueued {u user p v video} (hu : ActsAs s session u user) (hv : find s.videos p = some (v, video))
      (hnew : queueItems.videoAlreadyInUsersQueue s u p = false) : Done env s session (.queueItemsCreate p)
  -- the item can be anybody's
  | removed {u user p} (hu : ActsAs s session u user) (hq : (find s.queueItems p).isSome) :
      Done env s session (.queueItemsDestroy p)
  | reviewed {u user p v video params} (hu : ActsAs s session u user) (hv : find s.videos p = some (v, video))
      (hnew : reviews.alreadyReviewed s u v = false) (hr : ratingValid params.rating = true) :
      Done env s session (.reviewsCreate p (some params))
  | invited {u user params} (hu : ActsAs s session u user)
      (hnew : s.users.findBy env.take (fun user => user.email == params.friendEmail) = none)
      (hc : params.complete = true) : Done env s session (.invitationsCreate (some params))
  | joined {params stripeToken token} (hv : (NewUser.new params env.salt).valid s.users = true)
      (hc : (signupCharge env stripeToken).successful = true) (hf : (NewUser.new params env.salt).fits = true) :
      Done env s session (.usersCreate (some params) stripeToken token)
  -- the password can be blank
  | reset {id user token password} (hid : s.users.findBy env.take (fun user => user.token == token) = some (id, user)) :
      Done env s session (.passwordResetsCreate token password)
  | published {u user params} (hu : ActsAs s session u user) (ha : user.admin = some true)
      (hc : params.complete env = true) : Done env s session (.adminVideosCreate (some params))
  | loggedIn {id user email password}
      (hid : s.users.findBy env.take (fun user => user.email == email) = some (id, user))
      (hp : user.authenticate password = .ok true) : Done env s session (.sessionsCreate email password)
  | loggedOut : Done env s session .sessionsDestroy

/-- The actions that store something and then send a mail about it. -/
def Request.mailsLast : Request → Bool
  | .usersCreate _ _ _ | .invitationsCreate _ => true
  | _ => false

/-- What an answer says about the outcome. -/
structure Tells (env : Env) (s : Store) (session : Option Nat) (req : Request) (o : Outcome) : Prop where
  success : ∀ m, o.response.flash = some (.success m) → Done env s session req
  danger : ∀ m, o.response.flash = some (.danger m) → o.store = s ∧ o.session = session
  raised : ∀ x, o.response.reply = .raised x →
    if x = .deliveryError ∧ req.mailsLast = true then o.store ≠ s else o.store = s ∧ o.session = session

section
variable {rand : Nat → String} {env : Env} {s s' : Store} {session session' : Option Nat} {req : Request}

/-- Nothing is said. -/
theorem tells_silent {o : Outcome} (hf : o.response.flash = none) (hr : ∀ x, o.response.reply ≠ .raised x) :
    Tells env s session req o where
  success := by
    intro m h
    rw [hf] at h
    cases h
  danger := by
    intro m h
    rw [hf] at h
    cases h
  raised := by
    intro x h
    exact absurd h (hr x)

theorem tells_redirect (path : Path) : Tells env s session req (reply s' session' (redirectTo path none)) :=
  tells_silent rfl (by intro x h; cases h)

theorem tells_render (view : View) : Tells env s session req (reply s' session' (render view none)) :=
  tells_silent rfl (by intro x h; cases h)

theorem tells_success {o : Outcome} {m : String} (hd : Done env s session req)
    (hf : o.response.flash = some (.success m)) (hr : ∀ x, o.response.reply ≠ .raised x) :
    Tells env s session req o where
  success := by
    intro m' _
    exact hd
  danger := by
    intro m' h
    rw [hf] at h
    cases h
  raised := by
    intro x h
    exact absurd h (hr x)

theorem tells_done {path : Path} {m : String} (hd : Done env s session req) :
    Tells env s session req (reply s' session' (redirectTo path (some (.success m)))) :=
  tells_success hd rfl (by intro x h; cases h)

theorem tells_danger {r : Response} {m : Option String} (hf : r.flash = some (.danger m))
    (hr : ∀ x, r.reply ≠ .raised x) : Tells env s session req (reply s session r) where
  success := by
    intro m' h
    rw [show (reply s session r).response.flash = _ from hf] at h
    cases h
  danger := by
    intro m' _
    exact ⟨rfl, rfl⟩
  raised := by
    intro x h
    exact absurd h (hr x)

theorem tells_refused (path : Path) (m : Option String) :
    Tells env s session req (reply s session (redirectTo path (some (.danger m)))) :=
  tells_danger rfl (by intro x h; cases h)

theorem tells_again (view : View) (m : Option String) :
    Tells env s session req (reply s session (render view (some (.danger m)))) :=
  tells_danger rfl (by intro x h; cases h)

theorem tells_raised {x : Exception} (hx : ¬ (x = .deliveryError ∧ req.mailsLast = true)) :
    Tells env s session req (reply s session (raised x)) where
  success := by
    intro m h
    cases h
  danger := by
    intro m h
    cases h
  raised := by
    intro y h
    obtain rfl : x = y := Reply.raised.inj h
    rw [if_neg hx]
    exact ⟨rfl, rfl⟩

theorem tells_error {x : Exception} (hreq : req.mailsLast = false) :
    Tells env s session req (reply s session (raised x)) :=
  tells_raised (by simp [hreq])

/-- Something is stored and its mail is not sent. -/
theorem tells_undelivered (hreq : req.mailsLast = true) (hs : s'.drawn = s.drawn + 1) :
    Tells env s session req (reply s' session' (raised .deliveryError)) where
  success := by
    intro m h
    cases h
  danger := by
    intro m h
    cases h
  raised := by
    intro y h
    obtain rfl : Exception.deliveryError = y := Reply.raised.inj h
    rw [if_pos ⟨rfl, hreq⟩]
    intro he
    have hdrawn : s'.drawn = s.drawn := congrArg Store.drawn he
    omega

theorem tells_requireLogin {action : Nat × User → Outcome}
    (h : ∀ u user, ActsAs s session u user → Tells env s session req (action (u, user))) :
    Tells env s session req (requireLogin s session action) := by
  cases session with
  | none => exact tells_redirect _
  | some u =>
    cases hg : s.users.get u with
    | none =>
      simp only [requireLogin, currentUser, hg]
      exact tells_raised (by simp)
    | some user =>
      rw [requireLogin_of ⟨rfl, hg⟩]
      exact h u user ⟨rfl, hg⟩

/-! The actions. -/

theorem queueItems_create_tells (p : Param) :
    Tells env s session (.queueItemsCreate p) (queueItems.create s session p) := by
  refine tells_requireLogin (fun u user hu => ?_)
  simp only
  split
  · exact tells_refused _ _
  · next h =>
    simp only [Bool.or_eq_true, not_or, Bool.not_eq_true] at h
    obtain ⟨hex, hin⟩ := h
    obtain ⟨⟨v, video⟩, hv⟩ : ∃ r, find s.videos p = some r := by
      simpa [queueItems.videoDoesntExist, Option.isSome_iff_exists] using hex
    exact tells_done (.enqueued hu hv hin)

theorem queueItems_destroy_tells (p : Param) :
    Tells env s session (.queueItemsDestroy p) (queueItems.destroy env s session p) := by
  refine tells_requireLogin (fun u user hu => ?_)
  simp only
  split
  · exact tells_raised (by simp)
  · next hf => exact tells_done (.removed hu (by simp [hf]))

theorem queueItems_updateQueue_tells (params : Option (List QueueItemData)) :
    Tells env s session (.queueItemsUpdateQueue params) (queueItems.updateQueue env s session params) := by
  refine tells_requireLogin (fun u user _ => ?_)
  simp only
  split
  · exact tells_error rfl
  · split
    · exact tells_redirect _
    · exact tells_refused _ _
    · exact tells_error rfl

theorem reviews_create_tells (p : Param) (review : Option ReviewParams) :
    Tells env s session (.reviewsCreate p review) (reviews.create s session p review) := by
  refine tells_requireLogin (fun u user hu => ?_)
  simp only
  split
  · exact tells_error rfl
  · exact tells_error rfl
  · next v video params hf =>
    split
    · exact tells_again _ _
    · next hnew =>
      split
      · next hr => exact tells_done (.reviewed hu hf (by simpa using hnew) hr)
      · exact tells_again _ _

theorem invitations_create_tells (invitation : Option InvitationParams) :
    Tells env s session (.invitationsCreate invitation) (invitations.create rand env s session invitation) := by
  refine tells_requireLogin (fun u user hu => ?_)
  simp only
  split
  · exact tells_raised (by simp)
  · next params =>
    split
    · exact tells_refused _ _
    · next hnew =>
      split
      · next hv =>
        split
        · next hfit =>
          have hc : params.complete = true := by
            simpa [Invitation.valid, invitations.newInvitation, InvitationParams.complete] using And.intro hv hfit
          split
          · exact tells_success (.invited hu hnew hc) rfl (by intro x h; cases h)
          · exact tells_undelivered rfl rfl
        · exact tells_raised (by simp)
      · exact tells_again _ _

theorem sessions_create_tells (email password : Param) :
    Tells env s session (.sessionsCreate email password) (sessions.create env s session email password) := by
  unfold sessions.create
  simp only
  split
  · exact tells_again _ _
  · next hid =>
    split
    · exact tells_error rfl
    · next hp => exact tells_done (.loggedIn hid hp)
    · exact tells_again _ _

theorem forgotPasswords_create_tells (email : Param) :
    Tells env s session (.forgotPasswordsCreate email) (forgotPasswords.create env s session email) := by
  unfold forgotPasswords.create
  split
  · split
    · exact tells_silent rfl (by intro x h; cases h)
    · exact tells_error rfl
  · exact tells_refused _ _

theorem users_create_tells (user : Option UserParams) (stripeToken token : Param) :
    Tells env s session (.usersCreate user stripeToken token)
      (users.create rand env s session user stripeToken token) := by
  cases user with
  | none => exact tells_raised (by simp)
  | some p =>
    rw [users_create_eq]
    split
    · next hv =>
      split
      · next hc =>
        split
        · next hf =>
          split
          · exact tells_done (.joined hv hc hf)
          · exact tells_undelivered rfl (by simp)
        · exact tells_raised (by simp)
      · exact tells_again _ _
    · exact tells_again _ _

theorem requireAdmin_tells {action : Outcome}
    (h : ∀ u user, ActsAs s session u user → user.admin = some true → Tells env s session req action) :
    Tells env s session req (adminVideos.requireAdmin s session action) := by
  refine tells_requireLogin (fun u user hu => ?_)
  simp only
  split
  · next ha => exact h u user hu (by simpa using ha)
  · exact tells_refused _ _

theorem adminVideos_create_tells (video : Option VideoParams) :
    Tells env s session (.adminVideosCreate video) (adminVideos.create env s session video) := by
  refine requireAdmin_tells (fun u user hu ha => ?_)
  split
  · exact tells_error rfl
  · next params =>
    simp only
    split
    · next hv =>
      split
      · next hfit =>
        have hc : params.complete env = true := by
          simp only [VideoParams.complete, Bool.and_eq_true] at hv hfit ⊢
          exact ⟨hv, hfit⟩
        exact tells_done (.published hu ha hc)
      · exact tells_error rfl
    · exact tells_again _ _

end

/-- **What a request tells.** -/
theorem handle_tells (rand : Nat → String) (env : Env) (s : Store) (session : Option Nat) (req : Request) :
    Tells env s session req (handle rand env s session req) := by
  cases req with
  | queueItemsCreate p => exact queueItems_create_tells p
  | queueItemsDestroy p => exact queueItems_destroy_tells p
  | queueItemsUpdateQueue params => exact queueItems_updateQueue_tells params
  | reviewsCreate p review => exact reviews_create_tells p review
  | invitationsCreate invitation => exact invitations_create_tells invitation
  | sessionsCreate email password => exact sessions_create_tells email password
  | forgotPasswordsCreate email => exact forgotPasswords_create_tells email
  | usersCreate user stripeToken token => exact users_create_tells user stripeToken token
  | adminVideosCreate video => exact adminVideos_create_tells video
  | sessionsDestroy => exact tells_done .loggedOut
  | root | sessionsNew | forgotPasswordsNew | forgotPasswordsConfirm | passwordResetsExpiredToken =>
    exact tells_render _
  | videosIndex | videosSearch _ | categoriesShow _ | queueItemsIndex | relationshipsIndex | invitationsNew =>
    exact tells_requireLogin (fun _ _ _ => tells_render _)
  | ui => exact tells_requireLogin (fun _ _ _ => tells_redirect _)
  | adminVideosNew => exact requireAdmin_tells (fun _ _ _ _ => tells_render _)
  | videosShow p | usersShow p =>
    refine tells_requireLogin (fun _ _ _ => ?_)
    split
    · exact tells_render _
    · exact tells_error rfl
  | relationshipsCreate p | relationshipsDestroy p =>
    refine tells_requireLogin (fun _ _ _ => ?_)
    simp only
    split
    · exact tells_error rfl
    · split <;> exact tells_redirect _
  | usersNew token =>
    simp only [handle, users.new]
    split <;> exact tells_render _
  | passwordResetsShow token =>
    simp only [handle, passwordResets.show']
    split
    · exact tells_render _
    · exact tells_redirect _
  | passwordResetsCreate token password =>
    simp only [handle, passwordResets.create]
    split
    · next hid => exact tells_done (.reset hid)
    · exact tells_redirect _

/-! What a success reports. -/

section
variable {rand : Nat → String} {w : World} {e : Event}

/-- What can be done is done. -/
theorem Site.Step.does {s s' t : Site} {b : Nat} {a : Action} (h : s.Step b a s') (hcan : s.Does b a t) :
    s.Does b a s' := by
  rcases h with h | ⟨-, h⟩
  · exact h
  · exact absurd hcan (h t)

end

/-- **When an exception is harmless.** In every state, a request that ends in an exception changes
    nothing, except a sign-up or an invitation that is stored and whose mail cannot be sent. -/
theorem exceptions_harmless_iff (rand : Nat → String) (w : World) (e : Event) (x : Exception)
    (hx : (w.response rand e).reply = .raised x) :
    w.step rand e = w ↔ ¬ (x = .deliveryError ∧ e.request.mailsLast = true) := by
  have ht := (handle_tells rand e.env w.store (w.sessions e.sid) e.request).raised x hx
  by_cases hc : x = .deliveryError ∧ e.request.mailsLast = true
  · rw [if_pos hc] at ht
    refine ⟨?_, fun hn => absurd hc hn⟩
    intro he
    exact absurd (congrArg World.store he) ht
  · rw [if_neg hc] at ht
    exact ⟨fun _ => hc, fun _ => step_eq_self ht.1 ht.2⟩

/-- A sign-up whose mail cannot be sent. -/
theorem exceptions_harmless_iff_small :
    let e : Event := ⟨1, .usersCreate (some ⟨some "alice", some "alice@example.com", some "password"⟩) none none,
      { Env.fair with delivers := false }⟩
    World.stocked.step tally e ≠ World.stocked := by
  intro e
  refine mt (exceptions_harmless_iff tally World.stocked e .deliveryError (by decide)).mp ?_
  exact fun hn => hn ⟨rfl, rfl⟩

end Myflix
