import Myflix.Effects

/- What a request answers, said once. A view is rendered from what the action has
   found and nothing has been written then; a mail is sent by two actions. As
   `Effect` does for the writes, `handle_answers` takes all the actions apart so
   that nothing that is about answers has to.

   The tokens of a response are in it because the request named them: no action
   puts the token of a user or of an invitation on a page of somebody who has not
   sent it. -/
namespace Myflix
open Relational Rails

/-- The tokens a request carries. -/
def Request.tokens : Request → List String
  | .usersNew token | .usersCreate _ _ token | .passwordResetsShow token | .passwordResetsCreate token _ =>
    token.toList
  | _ => []

/-- The token a view puts into its form. -/
def View.token : View → Option String
  | .usersNew _ token | .passwordResetsShow token => token
  | _ => none

/-- The id of the video or of the user a request asks for. -/
def Request.asksFor : Request → Param
  | .videosShow id | .reviewsCreate id _ | .usersShow id => id
  | _ => none

/-- What is shown is stored and was asked for, and the token in a form is one the request named. -/
def View.Faithful (s : Store) (req : Request) : View → Prop
  | .videosShow v => req.asksFor.key = some v ∧ (s.videos.get v).isSome
  | .usersShow id => req.asksFor.key = some id ∧ (s.users.get id).isSome
  | .usersNew _ token | .passwordResetsShow token => ∀ t, token = some t → t ∈ req.tokens
  | _ => True

/-- The mails of a request, with the store it leaves. -/
inductive Sends (rand : Nat → String) (s : Store) (session : Option Nat) : Request → Mail → Store → Prop
  | forgotPassword {id x} (hid : s.users.get id = some x) :
      Sends rand s session (.forgotPasswordsCreate x.email) (.sendForgotPassword x.email x.token) s
  | invitation {u user params} (hu : ActsAs s session u user) :
      Sends rand s session (.invitationsCreate (some params))
        (.sendInvitation params.friendEmail (generateToken rand s))
        { s with
          invitations := s.invitations.insert (invitations.newInvitation rand s u params).stored
          drawn := s.drawn + 1 }

/-- A reset mail is for a stored user, with the token the user has then. -/
theorem Sends.user {rand : Nat → String} {s s' : Store} {session : Option Nat} {req : Request} {email token : Param}
    (h : Sends rand s session req (.sendForgotPassword email token) s') :
    ∃ id user, s'.users.get id = some user ∧ user.email = email ∧ user.token = token := by
  cases h with
  | @forgotPassword id x hid => exact ⟨id, x, hid, rfl, rfl⟩

/-- An invitation that is mailed is stored. -/
theorem Sends.stored {rand : Nat → String} {s s' : Store} {session : Option Nat} {req : Request} {email token : Param}
    (h : Sends rand s session req (.sendInvitation email token) s') :
    ∃ k i, s'.invitations.get k = some i ∧ i.friendEmail = truncated email ∧ i.token = token := by
  cases h with
  | @invitation u user params hu => exact ⟨_, _, Table.get_insert_self _ _, rfl, rfl⟩

structure Answers (rand : Nat → String) (s : Store) (session : Option Nat) (req : Request) (o : Outcome) : Prop where
  drawn : ∀ view, o.response.reply = .render view → o.store = s ∧ o.session = session ∧ view.Faithful s req
  mailed : ∀ m, o.response.mail = some m → Sends rand s session req m o.store

section
variable {rand : Nat → String} {env : Env} {s s' : Store} {session session' : Option Nat} {req : Request}

theorem answers_redirect (path : Path) (flash : Option Flash) :
    Answers rand s session req (reply s' session' (redirectTo path flash)) where
  drawn := by
    intro view h
    cases h
  mailed := by
    intro m h
    cases h

theorem answers_raised (e : Exception) : Answers rand s session req (reply s' session' (raised e)) where
  drawn := by
    intro view h
    cases h
  mailed := by
    intro m h
    cases h

theorem answers_render {view : View} (flash : Option Flash) (hv : view.Faithful s req) :
    Answers rand s session req (reply s session (render view flash)) where
  drawn := by
    intro view' h
    obtain rfl : view = view' := Reply.render.inj h
    exact ⟨rfl, rfl, hv⟩
  mailed := by
    intro m h
    cases h

theorem answers_mail {m : Mail} {path : Path} {flash : Option Flash} (hm : Sends rand s session req m s') :
    Answers rand s session req ⟨s', session', ⟨.redirectTo path, flash, some m⟩⟩ where
  drawn := by
    intro view h
    cases h
  mailed := by
    intro m' h
    obtain rfl := Option.some.inj h
    exact hm

theorem answers_requireLogin {action : Nat × User → Outcome}
    (h : ∀ u user, ActsAs s session u user → Answers rand s session req (action (u, user))) :
    Answers rand s session req (requireLogin s session action) := by
  cases session with
  | none => exact answers_redirect _ _
  | some u =>
    cases hg : s.users.get u with
    | none =>
      simp only [requireLogin, currentUser, hg]
      exact answers_raised _
    | some user =>
      rw [requireLogin_of ⟨rfl, hg⟩]
      exact h u user ⟨rfl, hg⟩

theorem answers_page {view : View} (hv : view.Faithful s req) :
    Answers rand s session req (page s session view) :=
  answers_requireLogin (fun _ _ _ => answers_render _ hv)

theorem reviews_create_answers (p : Param) (review : Option ReviewParams) :
    Answers rand s session (.reviewsCreate p review) (reviews.create s session p review) := by
  refine answers_requireLogin (fun u user _ => ?_)
  simp only
  split
  · exact answers_raised _
  · exact answers_raised _
  · next v video params hf =>
    have hv : (View.videosShow v).Faithful s (.reviewsCreate p (some params)) :=
      ⟨(find_some hf).1, by simp [(find_some hf).2]⟩
    split
    · exact answers_render _ hv
    · split
      · exact answers_redirect _ _
      · exact answers_render _ hv

theorem invitations_create_answers (invitation : Option InvitationParams) :
    Answers rand s session (.invitationsCreate invitation) (invitations.create rand env s session invitation) := by
  refine answers_requireLogin (fun u user hu => ?_)
  simp only
  split
  · exact answers_raised _
  · split
    · exact answers_redirect _ _
    · split
      · split
        · split
          · exact answers_mail (.invitation hu)
          · exact answers_raised _
        · exact answers_raised _
      · exact answers_render _ trivial

theorem forgotPasswords_create_answers (email : Param) :
    Answers rand s session (.forgotPasswordsCreate email) (forgotPasswords.create env s session email) := by
  unfold forgotPasswords.create
  split
  · next id x hf =>
    obtain ⟨hid, he⟩ := Table.findBy_some hf
    obtain rfl : x.email = email := by simpa using he
    split
    · exact answers_mail (.forgotPassword hid)
    · exact answers_raised _
  · exact answers_redirect _ _

theorem sessions_create_answers (email password : Param) :
    Answers rand s session req (sessions.create env s session email password) := by
  unfold sessions.create
  simp only
  split
  · exact answers_render _ trivial
  · split
    · exact answers_raised _
    · exact answers_redirect _ _
    · exact answers_render _ trivial

theorem users_create_answers (user : Option UserParams) (stripeToken token : Param) :
    Answers rand s session req (users.create rand env s session user stripeToken token) := by
  cases user with
  | none => exact answers_raised _
  | some p =>
    -- the form that is rendered again has no token
    have hform : (View.usersNew p.email none).Faithful s req := by
      intro t ht
      cases ht
    rw [users_create_eq]
    split
    · split
      · split
        · split
          · exact answers_redirect _ _
          · exact answers_raised _
        · exact answers_raised _
      · exact answers_render _ hform
    · exact answers_render _ hform

theorem adminVideos_create_answers (video : Option VideoParams) :
    Answers rand s session req (adminVideos.create env s session video) := by
  refine answers_requireLogin (fun u user _ => ?_)
  simp only
  split
  · split
    · exact answers_raised _
    · split
      · split
        · exact answers_redirect _ _
        · exact answers_raised _
      · exact answers_render _ trivial
  · exact answers_redirect _ _

theorem queueItems_updateQueue_answers (params : Option (List QueueItemData)) :
    Answers rand s session req (queueItems.updateQueue env s session params) := by
  refine answers_requireLogin (fun u user _ => ?_)
  simp only
  split
  · exact answers_raised _
  · split
    · exact answers_redirect _ _
    · exact answers_redirect _ _
    · exact answers_raised _

end

/-- **What a request answers.** -/
theorem handle_answers (rand : Nat → String) (env : Env) (s : Store) (session : Option Nat) (req : Request) :
    Answers rand s session req (handle rand env s session req) := by
  cases req with
  | reviewsCreate p review => exact reviews_create_answers p review
  | invitationsCreate invitation => exact invitations_create_answers invitation
  | forgotPasswordsCreate email => exact forgotPasswords_create_answers email
  | sessionsCreate email password => exact sessions_create_answers email password
  | usersCreate user stripeToken token => exact users_create_answers user stripeToken token
  | adminVideosCreate video => exact adminVideos_create_answers video
  | queueItemsUpdateQueue params => exact queueItems_updateQueue_answers params
  | root | sessionsNew | forgotPasswordsNew | forgotPasswordsConfirm | passwordResetsExpiredToken =>
    exact answers_render _ trivial
  | videosIndex | videosSearch _ | categoriesShow _ | queueItemsIndex | relationshipsIndex | invitationsNew =>
    exact answers_page trivial
  | ui => exact answers_requireLogin (fun _ _ _ => answers_redirect _ _)
  | sessionsDestroy => exact answers_redirect _ _
  | videosShow p =>
    refine answers_requireLogin (fun _ _ _ => ?_)
    split
    · next hf => exact answers_render _ ⟨(find_some hf).1, by simp [(find_some hf).2]⟩
    · exact answers_raised _
  | usersShow p =>
    refine answers_requireLogin (fun _ _ _ => ?_)
    split
    · next hf => exact answers_render _ ⟨(find_some hf).1, by simp [(find_some hf).2]⟩
    · exact answers_raised _
  | queueItemsCreate p =>
    refine answers_requireLogin (fun _ _ _ => ?_)
    simp only
    split <;> exact answers_redirect _ _
  | queueItemsDestroy p =>
    refine answers_requireLogin (fun _ _ _ => ?_)
    simp only
    split
    · exact answers_raised _
    · exact answers_redirect _ _
  | relationshipsCreate p | relationshipsDestroy p =>
    refine answers_requireLogin (fun _ _ _ => ?_)
    simp only
    split
    · exact answers_raised _
    · split <;> exact answers_redirect _ _
  | adminVideosNew =>
    refine answers_requireLogin (fun _ _ _ => ?_)
    simp only
    split
    · exact answers_render _ trivial
    · exact answers_redirect _ _
  | usersNew token =>
    simp only [handle, users.new]
    split
    · next k i hf =>
      refine answers_render _ ?_
      intro t ht
      have he : i.token = token := by simpa using (Table.findBy_some hf).2
      simp [Request.tokens, ← he, ht]
    · refine answers_render _ ?_
      intro t ht
      cases ht
  | passwordResetsShow token =>
    simp only [handle, passwordResets.show']
    split
    · next id x hf =>
      refine answers_render _ ?_
      intro t ht
      have he : x.token = token := by simpa using (Table.findBy_some hf).2
      simp [Request.tokens, ← he, ht]
    · exact answers_redirect _ _
  | passwordResetsCreate token password =>
    simp only [handle, passwordResets.create]
    split <;> exact answers_redirect _ _

end Myflix
