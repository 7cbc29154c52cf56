import Myflix.App
import Myflix.Lib.Raising

/- The pages (app/views), with the rows they list and the links they offer. A view
   reads the store while it is rendered and can raise there: an association that is
   gone is nil, and the next method call on it fails. A link is the request it is
   written for, with ids printed in decimal; how Rails writes it as a URL and reads
   it back is left out.

   Correspondence (Ruby ↔ Lean):
     `Category#videos`, `#recent_videos`     ↔ `Category.videos`, `Category.recentVideos`
     `Video#category`                        ↔ `Video.category`
     `Category.find_by(name: ...)`           ↔ in `categoryPage`
     views/<x>/<view>.html.haml              ↔ `<view>Page` below
     views/shared/_header.html.haml          ↔ `header`
     an action and the view it renders       ↔ `answer`
   The pictures and the texts are left out, and of what can be clicked the submit
   buttons of the forms, "Play" and "TV Shows" in the queue, which have no URL of
   their own, and "Watch Now", which leads to the video's URL. -/
namespace Myflix
open Relational Rails

/-! category.rb -/

structure Category where
  name : Option String
  deriving DecidableEq, Repr

/-- The order in which the queries of a page get their rows; where the source asks for none,
    PostgreSQL gives any. -/
structure Listing where
  categories : OrderBy (Nat × Category) (fun _ => 0)
  newestFirst : OrderBy (Nat × Video) (fun r => -(r.2.createdAt : Int))
  oldestFirst : OrderBy (Nat × Video) (fun r => (r.2.createdAt : Int))
  reviews : OrderBy (Nat × Review) (fun _ => 0)
  relationships : OrderBy (Nat × Relationship) (fun _ => 0)

/-- `has_many :videos, -> { order('created_at DESC') }`. -/
def Category.videos (l : Listing) (s : Store) (id : Nat) : List (Nat × Video) :=
  l.newestFirst.sort (s.videos.select (fun v => v.categoryId == some (id : Int)))

/-- `videos.first(6)`. -/
def Category.recentVideos (l : Listing) (s : Store) (id : Nat) : List (Nat × Video) :=
  (Category.videos l s id).take 6

/-- `belongs_to :category`. -/
def Video.category (categories : Table Category) (v : Video) : Option Category :=
  v.categoryId.bind (fun n => if 0 ≤ n then categories.get n.toNat else none)

/-! What the pages show. -/

/-- A category on the home page, with its recent videos. -/
structure Shelf where
  name : String
  videos : List Nat
  deriving DecidableEq, Repr

/-- A review under a video. -/
structure ReviewRow where
  user : Nat
  rating : Option Int
  content : Option String
  deriving DecidableEq, Repr

/-- An item of the queue form. -/
structure QueueRow where
  id : Nat
  ranking : Int
  video : Nat
  rating : Option Int
  deriving DecidableEq, Repr

/-- Somebody the user follows, with the number of videos in their queue and of their followers. -/
structure PersonRow where
  relationship : Nat
  leader : Nat
  queued : Nat
  followers : Nat
  deriving DecidableEq, Repr

/-- A video in the collection of a user, with its genre. -/
structure CollectionRow where
  video : Nat
  category : String
  deriving DecidableEq, Repr

/-- A review on the page of its author. -/
structure AuthoredRow where
  video : Nat
  rating : Option Int
  content : Option String
  deriving DecidableEq, Repr

inductive Page where
  | root
  | home (shelves : List Shelf)
  | category (name : String) (videos : List Nat)
  | search (videos : List Nat)
  | video (id : Nat) (queueable : Bool) (reviews : List ReviewRow)
  | queue (rows : List QueueRow)
  | people (rows : List PersonRow)
  | profile (user : Nat) (followable : Bool) (collection : List CollectionRow) (reviews : List AuthoredRow)
  | register (email token : Option String)
  | login
  | forgotPassword
  | confirmPasswordReset
  | resetPassword (token : Option String)
  | expiredToken
  | invite
  | addVideo (categories : List Nat)
  deriving DecidableEq, Repr

/-! Links. -/

def videoPath (id : Nat) : Request := .videosShow (some (toString id))
def userPath (id : Nat) : Request := .usersShow (some (toString id))
def categoryPath (name : String) : Request := .categoriesShow (some name)

/-- The links in the body of a page that name an action of the application, with "+ My Queue",
    "Follow" and the two crosses, which make a POST or a DELETE. -/
def Page.links : Page → List Request
  | .root => [.usersNew none, .sessionsNew]
  | .home shelves => shelves.flatMap (fun shelf => categoryPath shelf.name :: shelf.videos.map videoPath)
  | .category _ videos => videos.map videoPath
  | .search videos => videos.map videoPath
  | .video id queueable reviews =>
    (if queueable then [.queueItemsCreate (some (toString id))] else []) ++
      reviews.map (fun r => userPath r.user)
  | .queue rows => rows.flatMap (fun r => [videoPath r.video, .queueItemsDestroy (some (toString r.id))])
  | .people rows =>
    rows.flatMap (fun r => [userPath r.leader, .relationshipsDestroy (some (toString r.relationship))])
  | .profile user followable collection reviews =>
    (if followable then [.relationshipsCreate (some (toString user))] else []) ++
      (collection.flatMap (fun r => [videoPath r.video, categoryPath r.category]) ++
        reviews.map (fun r => videoPath r.video))
  | .login => [.forgotPasswordsNew]
  | .register _ _ | .forgotPassword | .confirmPasswordReset | .resetPassword _ | .expiredToken | .invite
  | .addVideo _ => []

/-- The header of the layout: without a login only the link to the home page. -/
def header (s : Store) (session : Option Nat) : Except Exception (List Request) :=
  match currentUser s session with
  | .error e => .error e
  | .ok none => .ok [.videosIndex]
  | .ok (some _) => .ok [.videosIndex, .queueItemsIndex, .relationshipsIndex, .sessionsDestroy]

/-! The views. -/

section
variable (categories : Table Category) (env : Env) (l : Listing) (s : Store)

/-- A category of videos/index: `category.name.titleize` fails without a name. -/
def shelf (c : Nat × Category) : Except Exception Shelf :=
  match c.2.name with
  | none => .error .noMethodError
  | some name => .ok ⟨name, (Category.recentVideos l s c.1).map Prod.fst⟩

/-- videos/index. -/
def homePage : Except Exception Page :=
  ((l.categories.sort categories.rows).mapM (shelf l s)).map .home

/-- categories/show, for the category the action has found, or for nil. -/
def categoryPage (name : Param) : Except Exception Page :=
  match categories.findBy env.take (fun c => c.name == name) with
  | none => .error .noMethodError
  | some (id, c) =>
    match c.name with
    | none => .error .noMethodError
    | some name => .ok (.category name ((Category.videos l s id).map Prod.fst))

/-- videos/search. -/
def searchPage (searchString : Param) : Except Exception Page :=
  (Video.searchByTitle l.oldestFirst s searchString).map (fun videos => .search (videos.map Prod.fst))

/-- A review of videos/show: `review.user.username`. -/
def reviewRow (r : Review) : Except Exception ReviewRow :=
  match s.users.get r.userId with
  | none => .error .noMethodError
  | some _ => .ok ⟨r.userId, r.rating, r.content⟩

/-- videos/show: "+ My Queue" for a video that is not queued, and the reviews with their users. -/
def videoPage (u id : Nat) : Except Exception Page :=
  ((l.reviews.sort (s.reviews.select (fun r => r.videoId == id))).mapM (fun r => reviewRow s r.2)).map
    (.video id (!(s.queueOf u).any (fun r => r.2.videoId == id)))

/-- A row of the queue form: `queue_item.video.id` and `queue_item.rating` fail alike. -/
def queueRow (r : Nat × QueueItem) : Except Exception QueueRow :=
  (r.2.rating s).map (fun rating => ⟨r.1, r.2.ranking, r.2.videoId, rating⟩)

/-- queue_items/index: a row of the form for each item, in the order of their rankings. -/
def queuePage (u : Nat) : Except Exception Page :=
  ((env.byRanking.sort (s.queueOf u)).mapM (queueRow s)).map .queue

/-- `relationship.leader`. -/
def Relationship.leader (r : Relationship) : Option (Nat × User) :=
  r.leaderId.bind (fun k => (s.users.get k).map (fun leader => (k, leader)))

/-- A row of relationships/index: `relationship.leader.email.downcase`, and two counts. -/
def personRow (r : Nat × Relationship) : Except Exception PersonRow :=
  match r.2.leader s with
  | none => .error .noMethodError
  | some (k, leader) =>
    match leader.email with
    | none => .error .noMethodError
    | some _ =>
      .ok ⟨r.1, k, (s.queueOf k).length, (s.relationships.select (fun r => r.leaderId == some k)).length⟩

/-- relationships/index. -/
def peoplePage (u : Nat) : Except Exception Page :=
  ((l.relationships.sort (s.relationships.select (fun r => r.followerId == some u))).mapM (personRow s)).map
    .people

/-- A row of the collection: `queue_item.video.category.name.titleize`. -/
def collectionRow (q : QueueItem) : Except Exception CollectionRow :=
  match s.videos.get q.videoId with
  | none => .error .noMethodError
  | some v =>
    match (v.category categories).bind Category.name with
    | none => .error .noMethodError
    | some name => .ok ⟨q.videoId, name⟩

/-- A review on its author's page: `review.video.title`. -/
def authoredRow (r : Review) : Except Exception AuthoredRow :=
  match s.videos.get r.videoId with
  | none => .error .noMethodError
  | some _ => .ok ⟨r.videoId, r.rating, r.content⟩

/-- users/show: "Follow" for a user who can be followed, the collection and the reviews. -/
def profilePage (u id : Nat) (user : User) : Except Exception Page :=
  match user.email with
  | none => .error .noMethodError
  | some _ =>
    match (env.byRanking.sort (s.queueOf id)).mapM (fun r => collectionRow categories s r.2) with
    | .error e => .error e
    | .ok collection =>
      ((l.reviews.sort (s.reviews.select (fun r => r.userId == id))).mapM (fun r => authoredRow s r.2)).map
        (.profile id (canFollow s u id) collection)

/-- admin/videos/new: the categories that can be chosen. -/
def addVideoPage : Page := .addVideo ((l.categories.sort categories.rows).map Prod.fst)

/-- A view that calls methods of `current_user`. -/
def forUser (session : Option Nat) (view : Nat → Except Exception Page) : Except Exception Page :=
  match session with
  | none => .error .noMethodError
  | some u => view u

/-- The page of a view. `View.other` stands for the view of the action itself. -/
def pageOf (session : Option Nat) (req : Request) : View → Except Exception Page
  | .usersNew email token => .ok (.register email token)
  | .usersShow id =>
    match s.users.get id with
    | none => .error .noMethodError
    | some user => forUser session (fun u => profilePage categories env l s u id user)
  | .sessionsNew => .ok .login
  | .passwordResetsShow token => .ok (.resetPassword token)
  | .videosShow id => forUser session (fun u => videoPage l s u id)
  | .invitationsNew => .ok .invite
  | .adminVideosNew => .ok (addVideoPage categories l)
  | .other =>
    match req with
    | .videosIndex => homePage categories l s
    | .videosSearch searchString => searchPage l s searchString
    | .categoriesShow name => categoryPage categories env l s name
    | .queueItemsIndex => forUser session (queuePage env s)
    | .relationshipsIndex => forUser session (peoplePage l s)
    | .forgotPasswordsNew => .ok .forgotPassword
    | .forgotPasswordsConfirm => .ok .confirmPasswordReset
    | .passwordResetsExpiredToken => .ok .expiredToken
    -- static_pages#root; no other action renders a view of its own
    | _ => .ok .root

end

/-! Answers. -/

/-- What the browser shows. -/
structure Screen where
  page : Page
  header : List Request
  deriving DecidableEq, Repr

def Screen.links (screen : Screen) : List Request := screen.page.links ++ screen.header

/-- A request with the view it renders: a screen, a redirect (`none`) or an exception. The
    view is rendered from what the action has left, and before the layout. -/
def answer (rand : Nat → String) (categories : Table Category) (env : Env) (l : Listing) (s : Store)
    (session : Option Nat) (req : Request) : Except Exception (Option Screen) :=
  let o := handle rand env s session req
  match o.response.reply with
  | .raised e => .error e
  | .redirectTo _ => .ok none
  | .render view =>
    match pageOf categories env l o.store o.session req view with
    | .error e => .error e
    | .ok page => (header o.store o.session).map (fun header => some ⟨page, header⟩)

end Myflix
