import Myflix.Signup

/- The controllers (app/controllers). An action takes the store, the user id its
   session holds and its parameters to the store it leaves, the user id the
   session holds afterwards and the response. An exception that leaves an action
   keeps what was written before it; `ActiveRecord::Base.transaction` is the one
   place where the writes are undone (`updateQueueItems` returns no store when it
   raises).

   Correspondence (Ruby ↔ Lean):
     `ApplicationController#current_user`      ↔ `currentUser`
     `ApplicationController#require_login`     ↔ `requireLogin`
     `Admin::VideosController#require_admin`   ↔ `requireAdmin`
     `<X>Controller#<action>`                  ↔ `<x>.<action>` below
   Actions without a body of their own (a page and nothing else) are `page`s. -/
namespace Myflix
open Relational Rails

/-! Responses. -/

inductive Path where
  | root
  | home
  | login
  | myQueue
  | people
  | newInvitation
  | newAdminVideo
  | forgotPassword
  | forgotPasswordConfirmation
  | expiredToken
  | video (id : Nat)
  deriving DecidableEq, Repr

/-- The views, with what the code under verification puts into them: the registration form
    has a hidden field with the invitation's token when `@invitation` is set. -/
inductive View where
  | usersNew (email : Option String) (token : Option String)
  | usersShow (id : Nat)
  | sessionsNew
  | passwordResetsShow (token : Option String)
  | videosShow (id : Nat)
  | invitationsNew
  | adminVideosNew
  | other
  deriving DecidableEq, Repr

inductive Reply where
  | redirectTo (path : Path)
  | render (view : View)
  | raised (e : Exception)
  deriving DecidableEq, Repr

inductive Flash where
  | success (message : String)
  | danger (message : Option String)
  deriving DecidableEq, Repr

/-- The mails, with the token of the link they carry. -/
inductive Mail where
  | sendForgotPassword (email : Option String) (token : Option String)
  | sendInvitation (email : Option String) (token : Option String)
  deriving DecidableEq, Repr

structure Response where
  reply : Reply
  flash : Option Flash
  mail : Option Mail
  deriving DecidableEq, Repr

def redirectTo (path : Path) (flash : Option Flash) : Response := ⟨.redirectTo path, flash, none⟩
def render (view : View) (flash : Option Flash) : Response := ⟨.render view, flash, none⟩
def raised (e : Exception) : Response := ⟨.raised e, none, none⟩

/-- What an action leaves behind. -/
structure Outcome where
  store : Store
  session : Option Nat
  response : Response

/-- The action neither writes nor touches the session. -/
def reply (s : Store) (session : Option Nat) (r : Response) : Outcome := ⟨s, session, r⟩

/-! application_controller.rb -/

/-- `current_user`: `User.find` raises for an id that is not stored. -/
def currentUser (s : Store) (session : Option Nat) : Except Exception (Option (Nat × User)) :=
  match session with
  | none => .ok none
  | some id =>
    match s.users.get id with
    | some user => .ok (some (id, user))
    | none => .error .recordNotFound

/-- `before_filter :require_login`. -/
def requireLogin (s : Store) (session : Option Nat) (action : Nat × User → Outcome) : Outcome :=
  match currentUser s session with
  | .error e => reply s session (raised e)
  | .ok none => reply s session (redirectTo .root none)
  | .ok (some user) => action user

/-- An action that only renders, behind the login. -/
def page (s : Store) (session : Option Nat) (view : View) : Outcome :=
  requireLogin s session (fun _ => reply s session (render view none))

/-- `Model.find(params[:id])`. -/
def find {α : Type} (t : Table α) (p : Param) : Option (Nat × α) :=
  (Param.key p).bind (fun k => (t.get k).map (fun a => (k, a)))

/-! queue_items_controller.rb -/

namespace queueItems

def videoDoesntExist (s : Store) (videoId : Param) : Bool := (find s.videos videoId).isNone

def videoAlreadyInUsersQueue (s : Store) (u : Nat) (videoId : Param) : Bool :=
  (s.queueOf u).any (fun r => (r.2.videoId : Int) == videoId.toI)

/-- `create_new_queue_item`: ranked one past the number of items. -/
def createNewQueueItem (s : Store) (u : Nat) (videoId : Param) : Store :=
  let item : QueueItem :=
    { userId := u, videoId := videoId.toI.toNat, ranking := ((s.queueOf u).length : Int) + 1 }
  { s with queueItems := s.queueItems.insert item }

def create (s : Store) (session : Option Nat) (videoId : Param) : Outcome :=
  requireLogin s session fun (u, _) =>
    if videoDoesntExist s videoId || videoAlreadyInUsersQueue s u videoId then
      reply s session (redirectTo .myQueue (some (.danger (some "Sorry we couldn't add that video."))))
    else
      reply (createNewQueueItem s u videoId) session
        (redirectTo .myQueue (some (.success "Video added to queue.")))

/-- `queue_item.destroy if current_user.queue_items.include?(queue_item)`. -/
def destroyIfOwn (s : Store) (u : Nat) (id : Nat) (q : QueueItem) : Store :=
  if q.userId == u then { s with queueItems := s.queueItems.delete id } else s

def destroy (env : Env) (s : Store) (session : Option Nat) (id : Param) : Outcome :=
  requireLogin s session fun (u, _) =>
    match find s.queueItems id with
    | none => reply s session (raised .recordNotFound)
    | some (id, q) =>
      reply (normaliseQueueItemRankings env (destroyIfOwn s u id q) u) session
        (redirectTo .myQueue (some (.success "Queue item has been removed.")))

/-- One round of the loop in `update_queue_items`: other users' items are skipped. -/
def updateQueueItem (s : Store) (u : Nat) (data : QueueItemData) : Except Exception Store :=
  match find s.queueItems data.id with
  | none => .error .recordNotFound
  | some (id, q) => if q.userId == u then q.updateAttributes s id data else .ok s

/-- `update_queue_items`: the loop, inside a transaction. -/
def updateQueueItems (s : Store) (u : Nat) : List QueueItemData → Except Exception Store
  | [] => .ok s
  | data :: rest =>
    match updateQueueItem s u data with
    | .error e => .error e
    | .ok s => updateQueueItems s u rest

/-- `update_queue`: only `RecordInvalid` is rescued. Without the parameter, `nil.each` raises. -/
def updateQueue (env : Env) (s : Store) (session : Option Nat) (params : Option (List QueueItemData)) :
    Outcome :=
  requireLogin s session fun (u, _) =>
    match params with
    | none => reply s session (raised .noMethodError)
    | some entries =>
      -- after an exception the transaction is rolled back: the store is the one from before
      match updateQueueItems s u entries with
      | .ok s => reply (normaliseQueueItemRankings env s u) session (redirectTo .myQueue none)
      | .error .recordInvalid =>
        reply s session (redirectTo .myQueue (some (.danger (some "Invalid position numbers."))))
      | .error e => reply s session (raised e)

end queueItems

/-! reviews_controller.rb -/

/-- The permitted keys of `params[:review]`. -/
structure ReviewParams where
  rating : Param
  content : Param
  deriving DecidableEq, Repr

namespace reviews

/-- `@video.reviews.map(&:user).include?(current_user)`. -/
def alreadyReviewed (s : Store) (u v : Nat) : Bool :=
  s.reviews.rows.any (fun r => r.2.videoId == v && r.2.userId == u)

def create (s : Store) (session : Option Nat) (videoId : Param) (review : Option ReviewParams) : Outcome :=
  requireLogin s session fun (u, _) =>
    match find s.videos videoId, review with
    | none, _ => reply s session (raised .recordNotFound)
    | some _, none => reply s session (raised .parameterMissing)
    | some (v, _), some params =>
      if alreadyReviewed s u v then
        reply s session (render (.videosShow v) (some (.danger (some "You can only review a video once."))))
      else if ratingValid params.rating then
        reply (createReview s u v params.rating params.content) session
          (redirectTo (.video v) (some (.success "Thanks for your review.")))
      else reply s session (render (.videosShow v) (some (.danger (some "Review must have a rating."))))

end reviews

/-! relationships_controller.rb -/

namespace relationships

def create (s : Store) (session : Option Nat) (leaderId : Param) : Outcome :=
  requireLogin s session fun (u, _) =>
    match find s.users leaderId with
    | none => reply s session (raised .recordNotFound)
    | some (leader, _) =>
      if canFollow s u leader then
        reply { s with relationships := s.relationships.insert { leaderId := some leader, followerId := some u } }
          session (redirectTo .people none)
      else reply s session (redirectTo .people none)

def destroy (s : Store) (session : Option Nat) (id : Param) : Outcome :=
  requireLogin s session fun (u, _) =>
    match find s.relationships id with
    | none => reply s session (raised .recordNotFound)
    | some (id, r) =>
      if r.followerId == some u then
        reply { s with relationships := s.relationships.delete id } session (redirectTo .people none)
      else reply s session (redirectTo .people none)

end relationships

/-! invitations_controller.rb -/

/-- The permitted keys of `params[:invitation]`. -/
structure InvitationParams where
  friendName : Param
  friendEmail : Param
  message : Param
  deriving DecidableEq, Repr

namespace invitations

/-- `Invitation.new(invitation_params)` with its inviter and, from `before_create`, its token. -/
def newInvitation (rand : Nat → String) (s : Store) (u : Nat) (p : InvitationParams) : Invitation where
  friendName := p.friendName
  friendEmail := p.friendEmail
  inviterId := u
  token := generateToken rand s
  message := p.message

def create (rand : Nat → String) (env : Env) (s : Store) (session : Option Nat)
    (invitation : Option InvitationParams) : Outcome :=
  requireLogin s session fun (u, _) =>
    match invitation with
    | none => reply s session (raised .parameterMissing)
    | some params =>
      let i := newInvitation rand s u params
      -- a registered address is turned away before the validations run
      match s.users.findBy env.take (fun user => user.email == params.friendEmail) with
      | some _ =>
        reply s session
          (redirectTo .newInvitation (some (.danger (some "This email address is already registered."))))
      | none =>
        if i.valid then
          if fitsString i.friendName && fitsString i.friendEmail then
            -- the invitation is stored before the mail is handed over
            let s := { s with invitations := s.invitations.insert i.stored, drawn := s.drawn + 1 }
            if env.delivers then
              ⟨s, session, ⟨.redirectTo .newInvitation, some (.success "Invitation sent!"),
                some (.sendInvitation i.friendEmail i.token)⟩⟩
            else reply s session (raised .deliveryError)
          else reply s session (raised .statementInvalid)
        else
          reply s session (render .invitationsNew
            (some (.danger (some "Sorry invitation could not be sent. Please try again"))))

end invitations

/-! sessions_controller.rb -/

namespace sessions

def create (env : Env) (s : Store) (session : Option Nat) (email password : Param) : Outcome :=
  -- a refused login leaves the session as it was
  let refused := reply s session (render .sessionsNew (some (.danger (some "We could not log you in."))))
  match s.users.findBy env.take (fun user => user.email == email) with
  | none => refused
  | some (id, user) =>
    match user.authenticate password with
    | .error e => reply s session (raised e)
    | .ok true => reply s (some id) (redirectTo .home (some (.success "You are now logged in.")))
    | .ok false => refused

def destroy (s : Store) : Outcome :=
  reply s none (redirectTo .root (some (.success "You have been logged out.")))

end sessions

/-! forgot_passwords_controller.rb and password_resets_controller.rb -/

namespace forgotPasswords

def create (env : Env) (s : Store) (session : Option Nat) (email : Param) : Outcome :=
  match s.users.findBy env.take (fun user => user.email == email) with
  | some (_, user) =>
    if env.delivers then
      ⟨s, session, ⟨.redirectTo .forgotPasswordConfirmation, none,
        some (.sendForgotPassword user.email user.token)⟩⟩
    else reply s session (raised .deliveryError)
  | none =>
    reply s session (redirectTo .forgotPassword
      (some (.danger (some (if email.blank then "Email cannot be blank." else "Email does not exist.")))))

end forgotPasswords

namespace passwordResets

def show' (env : Env) (s : Store) (session : Option Nat) (id : Param) : Outcome :=
  match s.users.findBy env.take (fun user => user.token == id) with
  | some (_, user) => reply s session (render (.passwordResetsShow user.token) none)
  | none => reply s session (redirectTo .expiredToken none)

/-- `user.password = params[:password]; user.generate_token; user.save`, the result ignored. -/
def reset (rand : Nat → String) (env : Env) (s : Store) (id : Nat) (user : User) (password : Param) : Store :=
  -- the token is drawn whether or not the save goes through
  let s' := saveUser s id user (setPassword env.salt user.passwordDigest password) (generateToken rand s)
  { s' with drawn := s.drawn + 1 }

def create (rand : Nat → String) (env : Env) (s : Store) (session : Option Nat) (token password : Param) :
    Outcome :=
  match s.users.findBy env.take (fun user => user.token == token) with
  | some (id, user) =>
    reply (reset rand env s id user password) session
      (redirectTo .login (some (.success "Password has been updated.")))
  | none => reply s session (redirectTo .expiredToken none)

end passwordResets

/-! users_controller.rb -/

namespace users

/-- `@user.email = @invitation.friend_email if @invitation`; the form shows the token of `@invitation`. -/
def new (env : Env) (s : Store) (session : Option Nat) (token : Param) : Outcome :=
  match findInvitation env s token with
  | some (_, i) => reply s session (render (.usersNew i.friendEmail i.token) none)
  | none => reply s session (render (.usersNew none none) none)

def show' (s : Store) (session : Option Nat) (id : Param) : Outcome :=
  requireLogin s session fun _ =>
    match find s.users id with
    | some (id, _) => reply s session (render (.usersShow id) none)
    | none => reply s session (raised .recordNotFound)

/-- On failure the form is rendered again; `@invitation` is not set in this action. -/
def create (rand : Nat → String) (env : Env) (s : Store) (session : Option Nat) (user : Option UserParams)
    (stripeToken token : Param) : Outcome :=
  match user with
  | none => reply s session (raised .parameterMissing)
  | some params =>
    match signUp rand env s (.new params env.salt) stripeToken token with
    | (s, .error e) => reply s session (raised e)
    | (s, .ok result) =>
      if result.successful then
        reply s session (redirectTo .login (some (.success "User has been created!")))
      else reply s session (render (.usersNew params.email none) (some (.danger result.errorMessage)))

end users

/-! videos_controller.rb and admin/videos_controller.rb -/

namespace videos

def show' (s : Store) (session : Option Nat) (id : Param) : Outcome :=
  requireLogin s session fun _ =>
    match find s.videos id with
    | some (id, _) => reply s session (render (.videosShow id) none)
    | none => reply s session (raised .recordNotFound)

end videos

/-- The permitted keys of `params[:video]` that are columns of `Video`. -/
structure VideoParams where
  title : Param
  description : Param
  categoryId : Param
  videoUrl : Param
  deriving DecidableEq, Repr

namespace adminVideos

/-- `before_filter :require_admin`, which runs after `require_login`. -/
def requireAdmin (s : Store) (session : Option Nat) (action : Outcome) : Outcome :=
  requireLogin s session fun (_, user) =>
    if user.admin == some true then action
    else reply s session (redirectTo .home (some (.danger (some "You are not authorized to do that."))))

/-- `Video.new(video_params)`. -/
def newVideo (env : Env) (p : VideoParams) : Video where
  categoryId := p.categoryId.assigned
  title := p.title
  description := p.description
  videoUrl := p.videoUrl
  createdAt := env.now

def new (s : Store) (session : Option Nat) : Outcome :=
  requireAdmin s session (reply s session (render .adminVideosNew none))

def create (env : Env) (s : Store) (session : Option Nat) (video : Option VideoParams) : Outcome :=
  requireAdmin s session <|
    match video with
    | none => reply s session (raised .parameterMissing)
    | some params =>
      let v := newVideo env params
      if v.valid && env.uploads then
        if fitsString v.title && fitsString v.videoUrl && fitsColumn v.categoryId then
          reply { s with videos := s.videos.insert v.stored } session
            (redirectTo .newAdminVideo (some (.success "Video created.")))
        else reply s session (raised .statementInvalid)
      else reply s session (render .adminVideosNew (some (.danger (some "Video not created."))))

end adminVideos

end Myflix
