import Myflix.App

/- What a request can do to the store, said once. `Effect` lists the writes of
   the application, one constructor for each, with what the code has checked
   before it; `handle_effect` is the only place where all the actions are taken
   apart. Every invariant of the store is a case analysis over `Effect`. -/
namespace Myflix
open Relational Rails Transition

/-! Sign-up, one request at a time. -/

/-- Both strings fit their columns. -/
def NewUser.fits (u : NewUser) : Bool := fitsString u.username && fitsString u.email

/-- The store with the new user in it. -/
def Store.addUser (rand : Nat → String) (s : Store) (u : NewUser) : Store :=
  { s with users := s.users.insert (u.row rand s), drawn := s.drawn + 1 }

/-- The store with the new user and the inviter following each other. -/
def Store.link (s : Store) (id : Nat) (inviter : Option Nat) : Store :=
  let followed := s.relationships.insert { leaderId := inviter, followerId := some id }
  { s with relationships := followed.insert { leaderId := some id, followerId := inviter } }

/-- The store after a sign-up that went through. -/
def Store.signedUp (rand : Nat → String) (env : Env) (s : Store) (u : NewUser) (token : Param) : Store :=
  match findInvitation env s token with
  | none => s.addUser rand u
  | some (_, i) => (s.addUser rand u).link s.users.next (i.inviter (s.addUser rand u))

theorem NewUser.save_eq (rand : Nat → String) (s : Store) (u : NewUser) (hv : u.valid s.users = true) :
    u.save rand s = if u.fits then .ok (s.addUser rand u, some s.users.next) else .error .statementInvalid := by
  simp only [NewUser.save, hv, if_true, NewUser.insert, NewUser.fits, Store.addUser]
  by_cases hf : (fitsString u.username && fitsString u.email) = true
  · simp only [hf, if_true]; rfl
  · simp only [hf]; rfl

/-- With nobody else writing, the save after an accepted charge finds the user still valid. -/
theorem signUp_eq (rand : Nat → String) (env : Env) (s : Store) (u : NewUser) (stripeToken token : Param) :
    signUp rand env s u stripeToken token =
      if u.valid s.users then
        if (signupCharge env stripeToken).successful then
          if u.fits then (s.signedUp rand env u token, welcome env) else (s, .error .statementInvalid)
        else (s, .ok (.declined (signupCharge env stripeToken)))
      else (s, .ok .invalid) := by
  unfold signUp
  split
  · next hv =>
    simp only
    split
    · rw [NewUser.save_eq rand s u hv]
      by_cases hf : u.fits = true
      · simp only [hf, if_true]
        have hfind : findInvitation env (s.addUser rand u) token = findInvitation env s token := rfl
        unfold linkAndMail Store.signedUp
        rw [hfind]
        cases findInvitation env s token with
        | none => rfl
        | some r => rfl
      · simp only [hf]
        rfl
    · rfl
  · rfl

/-- What `users#create` does and answers. -/
theorem users_create_eq (rand : Nat → String) (env : Env) (s : Store) (session : Option Nat) (p : UserParams)
    (stripeToken token : Param) :
    users.create rand env s session (some p) stripeToken token =
      if (NewUser.new p env.salt).valid s.users then
        if (signupCharge env stripeToken).successful then
          if (NewUser.new p env.salt).fits then
            if env.delivers then
              reply (s.signedUp rand env (.new p env.salt) token) session
                (redirectTo .login (some (.success "User has been created!")))
            else reply (s.signedUp rand env (.new p env.salt) token) session (raised .deliveryError)
          else reply s session (raised .statementInvalid)
        else reply s session
          (render (.usersNew p.email none) (some (.danger (signupCharge env stripeToken).errorMessage)))
      else reply s session
        (render (.usersNew p.email none) (some (.danger (some "Invalid user information.")))) := by
  simp only [users.create, signUp_eq, welcome]
  by_cases hv : (NewUser.new p env.salt).valid s.users = true
  · by_cases hc : (signupCharge env stripeToken).successful = true
    · by_cases hf : (NewUser.new p env.salt).fits = true
      · by_cases hd : env.delivers = true
        · simp only [hv, hc, hf, hd, if_true]; rfl
        · simp only [hv, hc, hf, hd, if_true]; rfl
      · simp only [hv, hc, hf, if_true]; rfl
    · simp only [hv, hc, if_true]; rfl
  · simp only [hv]; rfl

/-! What sign-up and reset leave in each table. -/

section
variable (rand : Nat → String) (env : Env) (s : Store)

@[simp] theorem signedUp_users (u : NewUser) (token : Param) :
    (s.signedUp rand env u token).users = s.users.insert (u.row rand s) := by
  unfold Store.signedUp; split <;> rfl

@[simp] theorem signedUp_drawn (u : NewUser) (token : Param) :
    (s.signedUp rand env u token).drawn = s.drawn + 1 := by
  unfold Store.signedUp; split <;> rfl

@[simp] theorem signedUp_videos (u : NewUser) (token : Param) :
    (s.signedUp rand env u token).videos = s.videos := by
  unfold Store.signedUp; split <;> rfl

@[simp] theorem signedUp_queueItems (u : NewUser) (token : Param) :
    (s.signedUp rand env u token).queueItems = s.queueItems := by
  unfold Store.signedUp; split <;> rfl

@[simp] theorem signedUp_reviews (u : NewUser) (token : Param) :
    (s.signedUp rand env u token).reviews = s.reviews := by
  unfold Store.signedUp; split <;> rfl

@[simp] theorem signedUp_invitations (u : NewUser) (token : Param) :
    (s.signedUp rand env u token).invitations = s.invitations := by
  unfold Store.signedUp; split <;> rfl

theorem signedUp_relationships (u : NewUser) (token : Param) :
    (s.signedUp rand env u token).relationships =
      match findInvitation env s token with
      | none => s.relationships
      | some (_, i) =>
        (s.relationships.insert ⟨i.inviter (s.addUser rand u), some s.users.next⟩).insert
          ⟨some s.users.next, i.inviter (s.addUser rand u)⟩ := by
  unfold Store.signedUp; split <;> rfl

variable (id : Nat) (user : User) (password : Param)

theorem reset_users :
    (passwordResets.reset rand env s id user password).users =
      if identityValid s.users (some id) user.username user.email then
        s.users.update id (fun u => { u with
          passwordDigest := setPassword env.salt user.passwordDigest password
          token := generateToken rand s })
      else s.users := by
  simp only [passwordResets.reset, saveUser]; split <;> rfl

@[simp] theorem reset_drawn : (passwordResets.reset rand env s id user password).drawn = s.drawn + 1 := rfl

@[simp] theorem reset_videos : (passwordResets.reset rand env s id user password).videos = s.videos := by
  simp only [passwordResets.reset, saveUser]; split <;> rfl

@[simp] theorem reset_queueItems :
    (passwordResets.reset rand env s id user password).queueItems = s.queueItems := by
  simp only [passwordResets.reset, saveUser]; split <;> rfl

@[simp] theorem reset_reviews : (passwordResets.reset rand env s id user password).reviews = s.reviews := by
  simp only [passwordResets.reset, saveUser]; split <;> rfl

@[simp] theorem reset_relationships :
    (passwordResets.reset rand env s id user password).relationships = s.relationships := by
  simp only [passwordResets.reset, saveUser]; split <;> rfl

@[simp] theorem reset_invitations :
    (passwordResets.reset rand env s id user password).invitations = s.invitations := by
  simp only [passwordResets.reset, saveUser]; split <;> rfl

end

/-! The writes. -/

/-- The user of the session is stored: what `require_login` lets through. -/
def ActsAs (s : Store) (session : Option Nat) (u : Nat) (user : User) : Prop :=
  session = some u ∧ s.users.get u = some user

inductive Effect (rand : Nat → String) (env : Env) (session : Option Nat) (s : Store) : Request → Store → Prop
  | nothing (req : Request) : Effect rand env session s req s
  | enqueue {u user p v video} (hu : ActsAs s session u user) (hp : Param.key p = some v)
      (hv : s.videos.get v = some video) (hnew : ∀ r ∈ s.queueOf u, r.2.videoId ≠ v) :
      Effect rand env session s (.queueItemsCreate p)
        { s with queueItems := s.queueItems.insert ⟨u, v, ((s.queueOf u).length : Int) + 1⟩ }
  | dequeue {u user p id q} (hu : ActsAs s session u user) (hp : Param.key p = some id)
      (hq : s.queueItems.get id = some q) (hown : q.userId = u) :
      Effect rand env session s (.queueItemsDestroy p)
        (normaliseQueueItemRankings env { s with queueItems := s.queueItems.delete id } u)
  | tidy {u user p} (hu : ActsAs s session u user) :
      Effect rand env session s (.queueItemsDestroy p) (normaliseQueueItemRankings env s u)
  | reorder {u user entries s'} (hu : ActsAs s session u user)
      (h : queueItems.updateQueueItems s u entries = .ok s') :
      Effect rand env session s (.queueItemsUpdateQueue (some entries)) (normaliseQueueItemRankings env s' u)
  | review {u user p v video params} (hu : ActsAs s session u user) (hv : s.videos.get v = some video)
      (hnew : ∀ k r, s.reviews.get k = some r → r.videoId = v → r.userId ≠ u)
      (hr : ratingValid params.rating = true) :
      Effect rand env session s (.reviewsCreate p (some params))
        { s with reviews := s.reviews.insert ⟨u, v, params.rating.int, params.content⟩ }
  | follow {u user p leader leaderUser} (hu : ActsAs s session u user)
      (hl : s.users.get leader = some leaderUser) (hc : canFollow s u leader = true) :
      Effect rand env session s (.relationshipsCreate p)
        { s with relationships := s.relationships.insert ⟨some leader, some u⟩ }
  | unfollow {u user p id r} (hu : ActsAs s session u user) (hr : s.relationships.get id = some r)
      (hown : r.followerId = some u) :
      Effect rand env session s (.relationshipsDestroy p)
        { s with relationships := s.relationships.delete id }
  | invite {u user params} (hu : ActsAs s session u user) :
      Effect rand env session s (.invitationsCreate (some params))
        { s with
          invitations := s.invitations.insert (invitations.newInvitation rand s u params).stored
          drawn := s.drawn + 1 }
  | signUp {params stripeToken token} (hv : (NewUser.new params env.salt).valid s.users = true)
      (hf : (NewUser.new params env.salt).fits = true) :
      Effect rand env session s (.usersCreate (some params) stripeToken token)
        (s.signedUp rand env (.new params env.salt) token)
  | reset {token password id user} (hid : s.users.get id = some user) (ht : user.token = token) :
      Effect rand env session s (.passwordResetsCreate token password)
        (passwordResets.reset rand env s id user password)
  | addVideo {u user params} (hu : ActsAs s session u user) (hadmin : user.admin = some true) :
      Effect rand env session s (.adminVideosCreate (some params))
        { s with videos := s.videos.insert (adminVideos.newVideo env params).stored }

/-! Taking the actions apart. -/

section
variable {rand : Nat → String} {env : Env} {s : Store} {session : Option Nat}

/-- Behind the login, an action runs for a stored user or nothing is written. -/
theorem requireLogin_cases (s : Store) (session : Option Nat) (action : Nat × User → Outcome) :
    (∃ r, requireLogin s session action = reply s session r) ∨
    ∃ u user, ActsAs s session u user ∧ requireLogin s session action = action (u, user) := by
  cases session with
  | none => exact .inl ⟨_, rfl⟩
  | some u =>
    cases hg : s.users.get u with
    | none => exact .inl ⟨raised .recordNotFound, by simp [requireLogin, currentUser, hg]⟩
    | some user => exact .inr ⟨u, user, ⟨rfl, hg⟩, by simp [requireLogin, currentUser, hg]⟩

theorem requireLogin_of {u : Nat} {user : User} (h : ActsAs s session u user) (action : Nat × User → Outcome) :
    requireLogin s session action = action (u, user) := by
  obtain ⟨rfl, hg⟩ := h
  simp [requireLogin, currentUser, hg]

/-- An action behind the login has an effect if its body has one for every user it can run for. -/
theorem requireLogin_effect {req : Request} (action : Nat × User → Outcome)
    (h : ∀ u user, ActsAs s session u user → Effect rand env session s req (action (u, user)).store) :
    Effect rand env session s req (requireLogin s session action).store := by
  rcases requireLogin_cases s session action with ⟨r, hr⟩ | ⟨u, user, hu, hr⟩
  · rw [hr]; exact .nothing req
  · rw [hr]; exact h u user hu

theorem find_some {α : Type} {t : Table α} {p : Param} {k : Nat} {a : α} (h : find t p = some (k, a)) :
    Param.key p = some k ∧ t.get k = some a := by
  obtain ⟨j, hj, hk⟩ := Option.bind_eq_some_iff.mp h
  obtain ⟨b, hb, he⟩ := Option.map_eq_some_iff.mp hk
  simp only [Prod.mk.injEq] at he
  obtain ⟨rfl, rfl⟩ := he
  exact ⟨hj, hb⟩

theorem find_of_key {α : Type} {t : Table α} {p : Param} {k : Nat} (h : Param.key p = some k) :
    find t p = (t.get k).map (fun a => (k, a)) := by simp [find, h]

theorem page_effect (req : Request) (view : View) :
    Effect rand env session s req (page s session view).store :=
  requireLogin_effect _ (fun _ _ _ => .nothing req)

theorem queueItems_create_effect (p : Param) :
    Effect rand env session s (.queueItemsCreate p) (queueItems.create s session p).store := by
  apply requireLogin_effect
  intro u user hu
  simp only
  split
  · exact .nothing _
  · next h =>
    simp only [Bool.or_eq_true, not_or, Bool.not_eq_true] at h
    obtain ⟨hex, hin⟩ := h
    cases hf : find s.videos p with
    | none => simp [queueItems.videoDoesntExist, hf] at hex
    | some r =>
      obtain ⟨v, video⟩ := r
      obtain ⟨hk, hv⟩ := find_some hf
      have hi := Param.toI_of_key hk
      have hnew : ∀ r ∈ s.queueOf u, r.2.videoId ≠ v := by
        intro r hr he
        simp only [queueItems.videoAlreadyInUsersQueue, List.any_eq_false, beq_iff_eq] at hin
        exact hin r hr (by rw [hi, he])
      have he : queueItems.createNewQueueItem s u p =
          { s with queueItems := s.queueItems.insert ⟨u, v, ((s.queueOf u).length : Int) + 1⟩ } := by
        simp [queueItems.createNewQueueItem, hi]
      show Effect rand env session s _ (queueItems.createNewQueueItem s u p)
      rw [he]
      exact .enqueue hu hk hv hnew

theorem queueItems_destroy_effect (p : Param) :
    Effect rand env session s (.queueItemsDestroy p) (queueItems.destroy env s session p).store := by
  apply requireLogin_effect
  intro u user hu
  simp only
  split
  · exact .nothing _
  · next id q hf =>
    obtain ⟨hk, hq⟩ := find_some hf
    show Effect rand env session s _ (normaliseQueueItemRankings env (queueItems.destroyIfOwn s u id q) u)
    unfold queueItems.destroyIfOwn
    split
    · next hown => exact .dequeue hu hk hq (by simpa using hown)
    · exact .tidy hu

theorem queueItems_updateQueue_effect (params : Option (List QueueItemData)) :
    Effect rand env session s (.queueItemsUpdateQueue params) (queueItems.updateQueue env s session params).store := by
  apply requireLogin_effect
  intro u user hu
  simp only
  split
  · exact .nothing _
  · next entries =>
    split
    · next s' h => exact .reorder hu h
    · exact .nothing _
    · exact .nothing _

theorem reviews_create_effect (p : Param) (review : Option ReviewParams) :
    Effect rand env session s (.reviewsCreate p review) (reviews.create s session p review).store := by
  apply requireLogin_effect
  intro u user hu
  simp only
  split
  · exact .nothing _
  · exact .nothing _
  · next v video params hf =>
    obtain ⟨-, hv⟩ := find_some hf
    split
    · exact .nothing _
    · next hno =>
      split
      · next hr =>
        have hnew : ∀ k r, s.reviews.get k = some r → r.videoId = v → r.userId ≠ u := by
          intro k r hk hrv hru
          apply hno
          simp only [reviews.alreadyReviewed, List.any_eq_true, Bool.and_eq_true, beq_iff_eq]
          exact ⟨(k, r), Table.get_eq_some.mp hk, hrv, hru⟩
        show Effect rand env session s _ (createReview s u v params.rating params.content)
        simp only [createReview, hr, if_true]
        exact .review hu hv hnew hr
      · exact .nothing _

theorem relationships_create_effect (p : Param) :
    Effect rand env session s (.relationshipsCreate p) (relationships.create s session p).store := by
  apply requireLogin_effect
  intro u user hu
  simp only
  split
  · exact .nothing _
  · next leader leaderUser hf =>
    split
    · next hc => exact .follow hu (find_some hf).2 hc
    · exact .nothing _

theorem relationships_destroy_effect (p : Param) :
    Effect rand env session s (.relationshipsDestroy p) (relationships.destroy s session p).store := by
  apply requireLogin_effect
  intro u user hu
  simp only
  split
  · exact .nothing _
  · next id r hf =>
    split
    · next hown => exact .unfollow hu (find_some hf).2 (by simpa using hown)
    · exact .nothing _

theorem invitations_create_effect (invitation : Option InvitationParams) :
    Effect rand env session s (.invitationsCreate invitation)
      (invitations.create rand env s session invitation).store := by
  apply requireLogin_effect
  intro u user hu
  simp only
  split
  · exact .nothing _
  · split
    · exact .nothing _
    · split
      · split
        · split
          · exact .invite hu
          · exact .invite hu
        · exact .nothing _
      · exact .nothing _

theorem users_create_effect (user : Option UserParams) (stripeToken token : Param) :
    Effect rand env session s (.usersCreate user stripeToken token)
      (users.create rand env s session user stripeToken token).store := by
  cases user with
  | none => exact .nothing _
  | some params =>
    rw [users_create_eq]
    split
    · next hv =>
      split
      · split
        · next hf => split <;> exact .signUp hv hf
        · exact .nothing _
      · exact .nothing _
    · exact .nothing _

theorem passwordResets_create_effect (token password : Param) :
    Effect rand env session s (.passwordResetsCreate token password)
      (passwordResets.create rand env s session token password).store := by
  simp only [passwordResets.create]
  split
  · next id user h =>
    obtain ⟨hid, ht⟩ := Table.findBy_some h
    exact .reset hid (by simpa using ht)
  · exact .nothing _

theorem adminVideos_create_effect (video : Option VideoParams) :
    Effect rand env session s (.adminVideosCreate video) (adminVideos.create env s session video).store := by
  apply requireLogin_effect
  intro u user hu
  simp only
  split
  · next hadmin =>
    split
    · exact .nothing _
    · split
      · split
        · exact .addVideo hu (by simpa using hadmin)
        · exact .nothing _
      · exact .nothing _
  · exact .nothing _

/-- **What a request can do to the store.** -/
theorem handle_effect (req : Request) : Effect rand env session s req (handle rand env s session req).store := by
  cases req with
  | queueItemsCreate p => exact queueItems_create_effect p
  | queueItemsDestroy p => exact queueItems_destroy_effect p
  | queueItemsUpdateQueue params => exact queueItems_updateQueue_effect params
  | reviewsCreate p review => exact reviews_create_effect p review
  | relationshipsCreate p => exact relationships_create_effect p
  | relationshipsDestroy p => exact relationships_destroy_effect p
  | invitationsCreate invitation => exact invitations_create_effect invitation
  | usersCreate user stripeToken token => exact users_create_effect user stripeToken token
  | passwordResetsCreate token password => exact passwordResets_create_effect token password
  | adminVideosCreate video => exact adminVideos_create_effect video
  | videosIndex | videosSearch _ | categoriesShow _ | queueItemsIndex | relationshipsIndex | invitationsNew =>
    exact page_effect _ _
  | root | sessionsNew | sessionsDestroy | forgotPasswordsNew | forgotPasswordsConfirm
  | passwordResetsExpiredToken => exact .nothing _
  | ui => exact requireLogin_effect _ (fun _ _ _ => .nothing _)
  | videosShow id | usersShow id =>
    refine requireLogin_effect _ (fun _ _ _ => ?_)
    split <;> exact .nothing _
  | adminVideosNew =>
    refine requireLogin_effect _ (fun _ _ _ => ?_)
    simp only
    split <;> exact .nothing _
  | usersNew token =>
    simp only [handle, users.new]
    split <;> exact .nothing _
  | passwordResetsShow id =>
    simp only [handle, passwordResets.show']
    split <;> exact .nothing _
  | forgotPasswordsCreate email =>
    simp only [handle, forgotPasswords.create]
    split
    · split <;> exact .nothing _
    · exact .nothing _
  | sessionsCreate email password =>
    simp only [handle, sessions.create]
    split
    · exact .nothing _
    · split <;> exact .nothing _

end

/-- The effect of one step of the application. -/
theorem step_effect (rand : Nat → String) (w : World) (e : Event) :
    Effect rand e.env (w.sessions e.sid) w.store e.request (w.step rand e).store :=
  handle_effect e.request

end Myflix
