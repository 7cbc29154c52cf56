import Myflix.Lib.Table
import Myflix.Lib.Runs
import Myflix.Lib.Pool
import Myflix.Lib.Serial
import Myflix.Lib.Numbering
import Myflix.Lib.Fresh
import Myflix.Lib.Rails
import Myflix.Lib.Decimal
import Myflix.Lib.Raising
import Myflix.Lib.Like
import Myflix.Schema
import Myflix.Models
import Myflix.Signup
import Myflix.Controllers
import Myflix.App
import Myflix.Search
import Myflix.Effects
import Myflix.Answers
import Myflix.Queue
import Myflix.QueueList
import Myflix.Renumbering
import Myflix.Writes
import Myflix.Ratings
import Myflix.Reviews
import Myflix.QueueForm
import Myflix.Access
import Myflix.FollowGraph
import Myflix.Accounts
import Myflix.PasswordReset
import Myflix.Invitations
import Myflix.ConcurrentSignup
import Myflix.SignupConsistency
import Myflix.SignupRaces
import Myflix.ConcurrentQueue
import Myflix.QueueConsistency
import Myflix.Pages
import Myflix.Invariant
import Myflix.PageErrors
import Myflix.Navigation
import Myflix.Site
import Myflix.Refinement
import Myflix.Messages
import Myflix.QueuePage
import Myflix.Observation
import Myflix.Mailing
import Myflix.Secrecy
import Myflix.Cookies
import Myflix.Forgery
import Myflix.Migration
import Myflix.ConcurrentRequests
import Myflix.Serializability
