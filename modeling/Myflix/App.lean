import Myflix.Controllers
import Myflix.Lib.Runs

/- The application as a transition system. A `Request` is one of the routes of
   config/routes.rb with its parameters, `handle` dispatches it to its action,
   and `World.step` lets one browser session make one request. Runs are runs of
   `World.step` (`Transition.run`): any number of sessions, any order, arbitrary
   parameters, requests one at a time.

   The Sidekiq dashboard mounted at /sidekiq is not part of the application.
   `protect_from_forgery` turns a request away before its action runs, so only
   requests that pass it are requests here. -/
namespace Myflix
open Relational Rails Transition

inductive Request where
  | root
  | ui
  | videosIndex
  | videosShow (id : Param)
  | videosSearch (searchString : Param)
  | categoriesShow (name : Param)
  | reviewsCreate (videoId : Param) (review : Option ReviewParams)
  | adminVideosNew
  | adminVideosCreate (video : Option VideoParams)
  | queueItemsIndex
  | queueItemsCreate (videoId : Param)
  | queueItemsUpdateQueue (params : Option (List QueueItemData))
  | queueItemsDestroy (id : Param)
  | usersNew (token : Param)
  | usersCreate (user : Option UserParams) (stripeToken token : Param)
  | usersShow (id : Param)
  | relationshipsIndex
  | relationshipsCreate (leaderId : Param)
  | relationshipsDestroy (id : Param)
  | sessionsNew
  | sessionsCreate (email password : Param)
  | sessionsDestroy
  | forgotPasswordsNew
  | forgotPasswordsCreate (email : Param)
  | forgotPasswordsConfirm
  | passwordResetsShow (id : Param)
  | passwordResetsCreate (token password : Param)
  | passwordResetsExpiredToken
  | invitationsNew
  | invitationsCreate (invitation : Option InvitationParams)
  deriving DecidableEq, Repr

/-- The action a request is routed to. -/
def handle (rand : Nat → String) (env : Env) (s : Store) (session : Option Nat) : Request → Outcome
  | .root => reply s session (render .other none)
  -- the mock-ups redirect in production, behind the login like every other page
  | .ui => requireLogin s session fun _ => reply s session (redirectTo .root none)
  | .videosIndex => page s session .other
  | .videosShow id => videos.show' s session id
  | .videosSearch _ => page s session .other
  | .categoriesShow _ => page s session .other
  | .reviewsCreate videoId review => reviews.create s session videoId review
  | .adminVideosNew => adminVideos.new s session
  | .adminVideosCreate video => adminVideos.create env s session video
  | .queueItemsIndex => page s session .other
  | .queueItemsCreate videoId => queueItems.create s session videoId
  | .queueItemsUpdateQueue params => queueItems.updateQueue env s session params
  | .queueItemsDestroy id => queueItems.destroy env s session id
  | .usersNew token => users.new env s session token
  | .usersCreate user stripeToken token => users.create rand env s session user stripeToken token
  | .usersShow id => users.show' s session id
  | .relationshipsIndex => page s session .other
  | .relationshipsCreate leaderId => relationships.create s session leaderId
  | .relationshipsDestroy id => relationships.destroy s session id
  | .sessionsNew => reply s session (render .sessionsNew none)
  | .sessionsCreate email password => sessions.create env s session email password
  | .sessionsDestroy => sessions.destroy s
  | .forgotPasswordsNew => reply s session (render .other none)
  | .forgotPasswordsCreate email => forgotPasswords.create env s session email
  | .forgotPasswordsConfirm => reply s session (render .other none)
  | .passwordResetsShow id => passwordResets.show' env s session id
  | .passwordResetsCreate token password => passwordResets.create rand env s session token password
  | .passwordResetsExpiredToken => reply s session (render .other none)
  | .invitationsNew => page s session .invitationsNew
  | .invitationsCreate invitation => invitations.create rand env s session invitation

/-- The store, and the user id each browser session holds in its cookie. -/
structure World where
  store : Store
  sessions : Nat → Option Nat

/-- One request: the session that makes it, and what the request gets from outside. -/
structure Event where
  sid : Nat
  request : Request
  env : Env

namespace World

/-- What the request of an event does. -/
def outcome (rand : Nat → String) (w : World) (e : Event) : Outcome :=
  handle rand e.env w.store (w.sessions e.sid) e.request

def step (rand : Nat → String) (w : World) (e : Event) : World where
  store := (w.outcome rand e).store
  sessions := Function.update w.sessions e.sid (w.outcome rand e).session

/-- What the browser gets back. -/
def response (rand : Nat → String) (w : World) (e : Event) : Response := (w.outcome rand e).response

end World

/-! A small installation, for the witnesses. -/

/-- Everything outside works: the first match is taken, ties keep their order, Stripe accepts. -/
def Env.fair : Env where
  take := .first
  byRanking := .stable _
  stripe := fun _ => .ok ()
  salt := 0
  delivers := true
  uploads := true
  now := 0

/-- A stream that never repeats: "", "a", "aa", ... -/
def tally (n : Nat) : String := String.ofList (List.replicate n 'a')

theorem tally_injective : Function.Injective tally := by
  intro m n h
  have := congrArg (fun s => s.toList.length) h
  simpa [tally] using this

def alice : User := ⟨some "alice", some "alice@example.com", some ⟨0, "password"⟩, some "t1", none⟩
def bob : User := ⟨some "bob", some "bob@example.com", some ⟨0, "password"⟩, some "t2", some true⟩

/-- Two users and two videos. -/
def Store.small : Store :=
  { Store.empty with
    users := (Table.empty.insert alice).insert bob
    videos := (Table.empty.insert ⟨none, some "Monk", some "A detective.", none, 0⟩).insert
      ⟨none, some "Futurama", some "A delivery boy.", none, 1⟩ }

/-- Session 1 is alice's, session 2 is bob's. -/
def World.small : World := ⟨Store.small, fun sid => if sid = 1 then some 1 else if sid = 2 then some 2 else none⟩

/-- A request of a session when everything outside works. -/
def Event.fair (sid : Nat) (request : Request) : Event := ⟨sid, request, .fair⟩

end Myflix
