import Myflix.Schema
import Myflix.Lib.Numbering
import Myflix.Lib.Like

/- The models (app/models): validations, the methods the controllers call, and
   the callbacks that write. `rand` is the stream of values
   `SecureRandom.urlsafe_base64` returns, read at `Store.drawn`. A method that can
   raise returns an `Except`; where the source ignores the result of a save, so
   does the caller here.

   Correspondence (Ruby ↔ Lean):
     `User` validations                      ↔ `identityValid`, `NewUser.valid`
     `User#password=` (has_secure_password)  ↔ `setPassword`
     `Tokenable#generate_token`              ↔ `generateToken`
     `User#save`, new and stored             ↔ `NewUser.save`, `saveUser`
     `User#normalise_queue_item_rankings`    ↔ `normaliseQueueItemRankings`
     `User#follows?`, `#can_follow?`         ↔ `follows`, `canFollow`
     `QueueItem#rating`, `#rating=`          ↔ `QueueItem.rating`, `QueueItem.setRating`
     `Video.search_by_title`                 ↔ `Video.searchByTitle`
     `StripeWrapper::Charge`                 ↔ `Charge` -/
namespace Myflix
open Relational Rails

/-! user.rb -/

/-- A `@user` that is not saved yet. `password` is the virtual attribute the validations read. -/
structure NewUser where
  username : Option String
  email : Option String
  password : Option String
  passwordDigest : Option Digest
  deriving DecidableEq, Repr

/-- The permitted keys of `params[:user]`. -/
structure UserParams where
  username : Param
  email : Param
  password : Param
  deriving DecidableEq, Repr

/-- `password=`: a blank password is ignored, any other is hashed. -/
def setPassword (salt : Nat) (old : Option Digest) (password : Param) : Option Digest :=
  if password.blank then old else some ⟨salt, password.getD ""⟩

/-- `User.new(user_params)`. -/
def NewUser.new (p : UserParams) (salt : Nat) : NewUser where
  username := p.username
  email := p.email
  password := if Param.blank p.password then none else p.password
  passwordDigest := setPassword salt none p.password

/-- The query of a uniqueness validation: another row holds the value. -/
def taken (users : Table User) (self : Option Nat) (column : User → Option String)
    (value : Option String) : Bool :=
  users.rows.any (fun r => some r.1 != self && column r.2 == truncated value)

/-- `validates :username` and `validates :email`: presence and uniqueness. -/
def identityValid (users : Table User) (self : Option Nat) (username email : Option String) : Bool :=
  !Param.blank username && !taken users self User.username username &&
    (!Param.blank email && !taken users self User.email email)

/-- `validates :password, ..., on: [:create]`. -/
def passwordValid (password : Option String) : Bool :=
  !Param.blank password && 8 ≤ (password.getD "").toList.length

/-- `valid?` of a new user, in the create context. -/
def NewUser.valid (users : Table User) (u : NewUser) : Bool :=
  identityValid users none u.username u.email && passwordValid u.password

/-- `generate_token`: the next value of SecureRandom. -/
def generateToken (rand : Nat → String) (s : Store) : Option String := some (rand s.drawn)

/-- The row of a new user, its strings as their columns keep them; the form cannot set `admin`. -/
def NewUser.row (rand : Nat → String) (s : Store) (u : NewUser) : User where
  username := truncated u.username
  email := truncated u.email
  passwordDigest := u.passwordDigest
  token := generateToken rand s
  admin := none

/-- The INSERT of a save, after `before_create`; refused when a value does not fit its column. -/
def NewUser.insert (rand : Nat → String) (s : Store) (u : NewUser) : Except Exception (Store × Nat) :=
  if fitsString u.username && fitsString u.email then
    .ok ({ s with users := s.users.insert (u.row rand s), drawn := s.drawn + 1 }, s.users.next)
  else .error .statementInvalid

/-- `save` of a new user: the id it got, or `none` when it is not valid. -/
def NewUser.save (rand : Nat → String) (s : Store) (u : NewUser) :
    Except Exception (Store × Option Nat) :=
  if u.valid s.users then (u.insert rand s).map (fun r => (r.1, some r.2)) else .ok (s, none)

/-- `save` of a stored user with a new digest and token: nothing when it is no longer valid. -/
def saveUser (s : Store) (id : Nat) (user : User) (digest : Option Digest) (token : Option String) : Store :=
  if identityValid s.users (some id) user.username user.email then
    { s with users := s.users.update id (fun u => { u with passwordDigest := digest, token := token }) }
  else s

/-- `user.authenticate`: raises on a user without a digest. -/
def User.authenticate (user : User) (password : Param) : Except Exception Bool :=
  match user.passwordDigest with
  | none => .error .invalidHash
  | some d => .ok (d.accepts password)

/-- `user.queue_items`, before it is ordered. -/
def Store.queueOf (s : Store) (u : Nat) : List (Nat × QueueItem) :=
  s.queueItems.select (fun q => q.userId == u)

/-- `update_attributes(ranking: n)` of a queue item: written when its user and its video exist. -/
def updateRanking (s : Store) (n : Int) (q : QueueItem) : QueueItem :=
  if (s.users.get q.userId).isSome && (s.videos.get q.videoId).isSome then { q with ranking := n } else q

/-- `normalise_queue_item_rankings`: the user's items in ranking order, each given its index plus one. -/
def normaliseQueueItemRankings (env : Env) (s : Store) (u : Nat) : Store :=
  -- the association is loaded once, before the first item is written
  let ids := (env.byRanking.sort (s.queueOf u)).map Prod.fst
  { s with queueItems := s.queueItems.renumber (fun i => updateRanking s ((i : Int) + 1)) 0 ids }

/-- `follows?`. -/
def follows (s : Store) (u leader : Nat) : Bool :=
  s.relationships.rows.any (fun r => r.2.followerId == some u && r.2.leaderId == some leader)

/-- `can_follow?`. -/
def canFollow (s : Store) (u leader : Nat) : Bool := !(follows s u leader || u == leader)

/-! review.rb and queue_item.rb -/

/-- `validates_numericality_of :rating`: an integer from 1 to 5. -/
def ratingValid (rating : Param) : Bool := rating.isInteger && (1 ≤ rating.toI && rating.toI ≤ 5)

/-- `Review.where(user_id: ..., video_id: ...).first`. -/
def Store.reviewOf (s : Store) (u v : Nat) : Option (Nat × Review) :=
  (s.reviews.select (fun r => r.userId == u && r.videoId == v)).head?

/-- `Review.create(user: ..., video: ..., rating: ..., content: ...)`: nothing when the rating is not valid. -/
def createReview (s : Store) (u v : Nat) (rating content : Param) : Store :=
  if ratingValid rating then
    { s with reviews := s.reviews.insert { userId := u, videoId := v, rating := rating.int, content := content } }
  else s

/-- `rating`: raises when the user or the video of the item is gone. -/
def QueueItem.rating (s : Store) (q : QueueItem) : Except Exception (Option Int) :=
  if (s.users.get q.userId).isSome && (s.videos.get q.videoId).isSome then
    .ok ((s.reviewOf q.userId q.videoId).bind (fun r => r.2.rating))
  else .error .noMethodError

/-- `rating=`: overwrites the rating of the review there is (`update_column`, no validation),
    and creates one otherwise. -/
def QueueItem.setRating (s : Store) (q : QueueItem) (newRating : Param) : Except Exception Store :=
  if (s.users.get q.userId).isSome && (s.videos.get q.videoId).isSome then
    match s.reviewOf q.userId q.videoId with
    | some (id, _) =>
      -- whatever was submitted is cast and written, a missing rating as NULL
      if fitsColumn newRating.int then
        .ok { s with reviews := s.reviews.update id (fun r => { r with rating := newRating.int }) }
      else .error .statementInvalid
    | none => .ok (createReview s q.userId q.videoId newRating none)
  else .error .noMethodError

/-- One entry of `params[:queue_items]`. -/
structure QueueItemData where
  id : Param
  ranking : Param
  rating : Param
  deriving DecidableEq, Repr

/-- `update_attributes!(ranking: ..., rating: ...)`: `rating=` writes at once, then the item is
    validated and saved. A ranking that has not changed is not written, so it is not refused either. -/
def QueueItem.updateAttributes (s : Store) (id : Nat) (q : QueueItem) (data : QueueItemData) :
    Except Exception Store :=
  match q.setRating s data.rating with
  | .error e => .error e
  | .ok s =>
    if data.ranking.isInteger then
      if data.ranking.toI == q.ranking || fitsInteger data.ranking.toI then
        .ok { s with queueItems := s.queueItems.update id (fun q => { q with ranking := data.ranking.toI }) }
      else .error .statementInvalid
    else .error .recordInvalid

/-! invitation.rb and video.rb -/

/-- `validates_presence_of :friend_name, :friend_email, :message, :inviter_id`. -/
def Invitation.valid (i : Invitation) : Bool :=
  !Param.blank i.friendName && !Param.blank i.friendEmail && !Param.blank i.message

/-- The row of an invitation: its strings as their columns keep them. -/
def Invitation.stored (i : Invitation) : Invitation :=
  { i with friendName := truncated i.friendName, friendEmail := truncated i.friendEmail }

/-- `invitation.inviter`. -/
def Invitation.inviter (s : Store) (i : Invitation) : Option Nat :=
  if (s.users.get i.inviterId).isSome then some i.inviterId else none

/-- `validates_presence_of :title, :description`. -/
def Video.valid (v : Video) : Bool := !Param.blank v.title && !Param.blank v.description

/-- The row of a video: its strings as their columns keep them. -/
def Video.stored (v : Video) : Video := { v with title := truncated v.title, videoUrl := truncated v.videoUrl }

/-- `search_by_title`: nothing for a blank string, otherwise the videos whose title is LIKE the
    string between two `%`, by `created_at`. A title that is NULL is not LIKE anything, and a
    pattern that ends in an escape is refused. -/
def Video.searchByTitle (byCreatedAt : OrderBy (Nat × Video) (fun r => (r.2.createdAt : Int))) (s : Store)
    (searchString : Param) : Except Exception (List (Nat × Video)) :=
  if searchString.blank then .ok []
  else
    match Like.tokens ('%' :: (searchString.getD "").toList ++ ['%']) with
    | none => .error .statementInvalid
    | some pattern =>
      .ok (byCreatedAt.sort (s.videos.select (fun v => v.title.any (fun t => Like.accepts pattern t.toList))))

/-! stripe_wrapper.rb -/

/-- `StripeWrapper::Charge`. -/
structure Charge where
  response : Option Unit
  errorMessage : Option String

/-- `StripeWrapper::Charge.create`: an error Stripe raises is kept as its message. -/
def Charge.create (env : Env) (amount : Nat) (description : String) (source : Param) : Charge :=
  match env.stripe { amount := amount, currency := "usd", description := description, source := source } with
  | .ok response => { response := some response, errorMessage := none }
  | .error message => { response := none, errorMessage := some message }

def Charge.successful (c : Charge) : Bool := c.response.isSome

end Myflix
