import Myflix.Lib.Table
import Myflix.Lib.Rails

/- The data model (db/schema.rb), and what a request gets from outside.

   A row carries the columns some modelled code reads or writes; the timestamps
   other than a video's `created_at`, the cover columns and the categories table
   are read by views only and are left out. The application writes `user_id`,
   `video_id` and `ranking` of a queue item, `user_id` and `video_id` of a review
   and `inviter_id` of an invitation with a value always, so these are not
   nullable here; the two ends of a relationship are. -/
namespace Myflix
open Relational Rails

structure User where
  username : Option String
  email : Option String
  passwordDigest : Option Digest
  token : Option String
  admin : Option Bool
  deriving DecidableEq, Repr

structure Video where
  categoryId : Option Int
  title : Option String
  description : Option String
  videoUrl : Option String
  createdAt : Nat
  deriving DecidableEq, Repr

structure QueueItem where
  userId : Nat
  videoId : Nat
  ranking : Int
  deriving DecidableEq, Repr

structure Review where
  userId : Nat
  videoId : Nat
  rating : Option Int
  content : Option String
  deriving DecidableEq, Repr

structure Relationship where
  leaderId : Option Nat
  followerId : Option Nat
  deriving DecidableEq, Repr

structure Invitation where
  friendName : Option String
  friendEmail : Option String
  inviterId : Nat
  token : Option String
  message : Option String
  deriving DecidableEq, Repr

/-- What all requests share: the tables, and how many values SecureRandom has handed out. -/
structure Store where
  users : Table User
  videos : Table Video
  queueItems : Table QueueItem
  reviews : Table Review
  relationships : Table Relationship
  invitations : Table Invitation
  drawn : Nat

/-- The database of a new installation. -/
def Store.empty : Store where
  users := .empty
  videos := .empty
  queueItems := .empty
  reviews := .empty
  relationships := .empty
  invitations := .empty
  drawn := 0

/-- The exceptions the code raises or lets through. -/
inductive Exception where
  | recordNotFound
  | recordInvalid
  | parameterMissing
  | noMethodError
  | statementInvalid
  | invalidHash
  | deliveryError
  deriving DecidableEq, Repr

/-- The arguments of `Stripe::Charge.create`. -/
structure ChargeOptions where
  amount : Nat
  currency : String
  description : String
  source : Param
  deriving DecidableEq, Repr

/-- What one request gets from outside: the rows PostgreSQL takes and the order it gives to
    equal rankings, Stripe's answer (a response, or the message of the error it raises), the
    salt BCrypt draws, whether a mail is handed over (the mailer or Sidekiq raises otherwise),
    whether CarrierWave accepts the covers, and the time. -/
structure Env where
  take : Take
  byRanking : OrderBy (Nat × QueueItem) (fun r => r.2.ranking)
  stripe : ChargeOptions → Except String Unit
  salt : Nat
  delivers : Bool
  uploads : Bool
  now : Nat

end Myflix
