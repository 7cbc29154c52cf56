import Myflix.Models

/- The sign-up service (app/services/user_signup.rb): validate, charge, save,
   link the new user with the inviter, mail. The result of `save` is ignored, as
   in the source: when it fails the code goes on with a user that has no id, and
   each `Relationship.create` first tries to save that user again (a belongs_to
   association saves a new record) and writes NULL for its id if it cannot. -/
namespace Myflix
open Relational Rails

inductive Status where
  | success
  | failed
  deriving DecidableEq, Repr

/-- What `sign_up` returns: the service with its status and error message. -/
structure SignupResult where
  status : Status
  errorMessage : Option String
  deriving DecidableEq, Repr

def SignupResult.successful (r : SignupResult) : Bool := r.status == .success

/-- The messages of a sign-up that does not go through. -/
def SignupResult.invalid : SignupResult := ⟨.failed, some "Invalid user information."⟩
def SignupResult.declined (c : Charge) : SignupResult := ⟨.failed, c.errorMessage⟩
def SignupResult.done : SignupResult := ⟨.success, none⟩

/-- `StripeWrapper::Charge.create(:amount => 999, ...)`. -/
def signupCharge (env : Env) (stripeToken : Param) : Charge :=
  Charge.create env 999 "Example charge" stripeToken

/-- `Relationship.create` with the new user at one end; a user that is not saved is saved first. -/
def relate (rand : Nat → String) (s : Store) (user : NewUser) (id : Option Nat)
    (edge : Option Nat → Relationship) : Except Exception (Store × Option Nat) :=
  match id with
  | some id => .ok ({ s with relationships := s.relationships.insert (edge (some id)) }, some id)
  | none =>
    -- what `save` answers is not looked at, only the id it leaves
    match user.save rand s with
    | .error e => .error e
    | .ok (s, id) => .ok ({ s with relationships := s.relationships.insert (edge id) }, id)

/-- `Relationship.create(leader: invitation.inviter, follower: @user)`. -/
def followInviter (rand : Nat → String) (s : Store) (user : NewUser) (id inviter : Option Nat) :
    Except Exception (Store × Option Nat) :=
  relate rand s user id (fun id => { leaderId := inviter, followerId := id })

/-- `Relationship.create(leader: @user, follower: invitation.inviter)`. -/
def leadInviter (rand : Nat → String) (s : Store) (user : NewUser) (id inviter : Option Nat) :
    Except Exception (Store × Option Nat) :=
  relate rand s user id (fun id => { leaderId := id, followerId := inviter })

/-- `Invitation.find_by(token: invitation_token)`. -/
def findInvitation (env : Env) (s : Store) (token : Param) : Option (Nat × Invitation) :=
  s.invitations.findBy env.take (fun i => i.token == token)

/-- `AppMailer.send_welcome_email(@user).deliver`, the last thing that can go wrong. -/
def welcome (env : Env) : Except Exception SignupResult :=
  if env.delivers then .ok .done else .error .deliveryError

/-- The part of `sign_up` after the save. -/
def linkAndMail (rand : Nat → String) (env : Env) (s : Store) (user : NewUser) (id : Option Nat)
    (invitationToken : Param) : Store × Except Exception SignupResult :=
  match findInvitation env s invitationToken with
  | none => (s, welcome env)
  | some (_, invitation) =>
    let inviter := invitation.inviter s
    match followInviter rand s user id inviter with
    | .error e => (s, .error e)
    | .ok (s, id) =>
      match leadInviter rand s user id inviter with
      | .error e => (s, .error e)
      | .ok (s, _) => (s, welcome env)

/-- `sign_up`. What was written before an exception stays written. -/
def signUp (rand : Nat → String) (env : Env) (s : Store) (user : NewUser) (stripeToken invitationToken : Param) :
    Store × Except Exception SignupResult :=
  if user.valid s.users then
    let charge := signupCharge env stripeToken
    if charge.successful then
      -- `@user.save`, its result ignored: `id` is nil when the user has become invalid
      match user.save rand s with
      | .error e => (s, .error e)
      | .ok (s, id) => linkAndMail rand env s user id invitationToken
    else (s, .ok (.declined charge))
  else (s, .ok .invalid)

end Myflix
