import Myflix.Invariant
import Myflix.Pages
import Myflix.Search

/- Which pages can be shown. A view raises when an association it follows is gone;
   the invariants of the application say that users and videos never are, so what
   is left is what nothing in the application sees to: a video need not have a
   category (`category_id` is not validated), and the page of every user who has
   queued one fails.

   What is proved:
     1. `pages_shown_iff`: in every state the application can be in, for a user who
        is logged in, each page is shown exactly when its record is there and, for
        the page of a user, every video in that user's queue has a category. -/
namespace Myflix
open Relational Rails Transition

/-- Every category has a name. `validates_presence_of :name` asks for more, that it is not blank;
    the pages need no more than this. -/
def Named (categories : Table Category) : Prop := ∀ k c, categories.get k = some c → c.name.isSome

/-- Every video in the queue of the user has a category. -/
def Collectable (categories : Table Category) (s : Store) (id : Nat) : Prop :=
  ∀ r ∈ s.queueOf id, ∃ v, s.videos.get r.2.videoId = some v ∧ (v.category categories).isSome

/-! The views, one by one. -/

section
variable {categories : Table Category} {env : Env} {l : Listing} {s : Store} {u : Nat}

theorem mem_sort {β : Type} {key : β → Int} (o : OrderBy β key) {x : β} {xs : List β} : x ∈ o.sort xs ↔ x ∈ xs :=
  (o.perm xs).mem_iff

theorem homePage_ok (hn : Named categories) : ∃ page, homePage categories l s = .ok page := by
  rw [homePage, Raising.map_isOk_iff, Raising.mapM_isOk_iff]
  intro c hc
  have hc : c ∈ categories.rows := (mem_sort _).mp hc
  obtain ⟨name, he⟩ := Option.isSome_iff_exists.mp (hn c.1 c.2 (Table.get_eq_some.mpr hc))
  simp [shelf, he]

theorem categoryPage_ok_iff (hn : Named categories) (name : Param) :
    (∃ page, categoryPage categories env l s name = .ok page) ↔
      ∃ k c, categories.get k = some c ∧ c.name = name := by
  unfold categoryPage
  split
  · next hf =>
    constructor
    · rintro ⟨page, hp⟩
      cases hp
    · rintro ⟨k, c, hk, he⟩
      have := Table.findBy_none.mp hf k c hk
      simp [he] at this
  · next k c hf =>
    obtain ⟨hk, he⟩ := Table.findBy_some hf
    obtain ⟨n, hc⟩ := Option.isSome_iff_exists.mp (hn k c hk)
    simp only [hc]
    exact ⟨fun _ => ⟨k, c, hk, by simpa using he⟩, fun _ => ⟨_, rfl⟩⟩

/-- A search never fails, whatever the string. -/
theorem searchPage_ok (searchString : Param) : ∃ page, searchPage l s searchString = .ok page := by
  rw [searchPage, Raising.map_isOk_iff]
  by_cases hb : Param.blank searchString = true
  · exact ⟨[], by simp [Video.searchByTitle, hb]⟩
  · obtain ⟨t, rfl, ht⟩ := some_of_not_blank (by simpa using hb)
    obtain ⟨found, hf, -⟩ := searchByTitle_ok (s := s) ht l.oldestFirst
    exact ⟨found, hf⟩

theorem videoPage_ok (h : ReviewInv s) (u id : Nat) : ∃ page, videoPage l s u id = .ok page := by
  rw [videoPage, Raising.map_isOk_iff, Raising.mapM_isOk_iff]
  intro r hr
  obtain ⟨hg, -⟩ := Table.mem_select.mp ((mem_sort _).mp hr)
  obtain ⟨user, hu⟩ := Option.isSome_iff_exists.mp (h.stored r.1 r.2 hg).1
  simp [reviewRow, hu]

theorem queuePage_ok (h : QueueInv s) (u : Nat) : ∃ page, queuePage env s u = .ok page := by
  rw [queuePage, Raising.map_isOk_iff, Raising.mapM_isOk_iff]
  intro r hr
  obtain ⟨hg, -⟩ := mem_queueOf.mp ((mem_sort _).mp hr)
  obtain ⟨hu, hv⟩ := h.stored r.1 r.2 hg
  rw [queueRow, rating_of_stored hu hv]
  exact ⟨_, rfl⟩

/-- The leader of a relationship, with an email. -/
theorem FollowGraph.leader (h : FollowGraph s) (ha : Accounts s) {k : Nat} {r : Relationship}
    (hr : s.relationships.get k = some r) :
    ∃ id leader email, r.leader s = some (id, leader) ∧ r.leaderId = some id ∧ s.users.get id = some leader ∧
      leader.email = some email := by
  obtain ⟨follower, id, -, hl, -, hs⟩ := h.ends k r hr
  obtain ⟨leader, hg⟩ := Option.isSome_iff_exists.mp hs
  obtain ⟨email, he, -⟩ := some_of_not_blank (ha.present id leader hg).2
  exact ⟨id, leader, email, by simp [Relationship.leader, hl, hg], hl, hg, he⟩

theorem peoplePage_ok (h : FollowGraph s) (ha : Accounts s) (u : Nat) : ∃ page, peoplePage l s u = .ok page := by
  rw [peoplePage, Raising.map_isOk_iff, Raising.mapM_isOk_iff]
  intro r hr
  obtain ⟨hg, -⟩ := Table.mem_select.mp ((mem_sort _).mp hr)
  obtain ⟨id, leader, email, hl, -, -, he⟩ := h.leader ha hg
  simp [personRow, hl, he]

theorem collectionRow_ok_iff (hn : Named categories) {q : QueueItem} :
    (∃ row, collectionRow categories s q = .ok row) ↔
      ∃ v, s.videos.get q.videoId = some v ∧ (v.category categories).isSome := by
  unfold collectionRow
  cases hv : s.videos.get q.videoId with
  | none => simp
  | some v =>
    simp only [Option.some.injEq, exists_eq_left']
    cases hc : v.category categories with
    | none => simp
    | some c =>
      obtain ⟨n, -, hk⟩ := Option.bind_eq_some_iff.mp hc
      split at hk
      · obtain ⟨name, hname⟩ := Option.isSome_iff_exists.mp (hn _ c hk)
        simp [hname]
      · cases hk

theorem profilePage_ok_iff (ha : Accounts s) (hr : ReviewInv s) (hn : Named categories) {id : Nat} {user : User}
    (hid : s.users.get id = some user) :
    (∃ page, profilePage categories env l s u id user = .ok page) ↔ Collectable categories s id := by
  obtain ⟨email, he, -⟩ := some_of_not_blank (ha.present id user hid).2
  have hrows : (∃ rows, (env.byRanking.sort (s.queueOf id)).mapM (fun r => collectionRow categories s r.2) =
      .ok rows) ↔ Collectable categories s id := by
    rw [Raising.mapM_isOk_iff]
    simp only [mem_sort, collectionRow_ok_iff hn]
    rfl
  have hauthored : ∃ rows, (l.reviews.sort (s.reviews.select (fun r => r.userId == id))).mapM
      (fun r => authoredRow s r.2) = .ok rows := by
    rw [Raising.mapM_isOk_iff]
    intro r hm
    obtain ⟨hg, -⟩ := Table.mem_select.mp ((mem_sort _).mp hm)
    obtain ⟨video, hv⟩ := Option.isSome_iff_exists.mp (hr.stored r.1 r.2 hg).2
    simp [authoredRow, hv]
  rw [← hrows]
  simp only [profilePage, he]
  cases hc : (env.byRanking.sort (s.queueOf id)).mapM (fun r => collectionRow categories s r.2) with
  | error e => simp
  | ok rows =>
    simp only [Raising.map_isOk_iff]
    exact ⟨fun _ => ⟨rows, rfl⟩, fun _ => hauthored⟩

theorem header_ok {session : Option Nat} {user : User} (h : ActsAs s session u user) :
    header s session = .ok [.videosIndex, .queueItemsIndex, .relationshipsIndex, .sessionsDestroy] := by
  obtain ⟨rfl, hu⟩ := h
  simp [header, currentUser, hu]

/-! Answers. -/

variable {rand : Nat → String} {session : Option Nat} {user : User} {req : Request}

/-- An action that renders a view for a user who is logged in. -/
theorem answer_of_render (hu : ActsAs s session u user) {view : View} {flash : Option Flash}
    (ho : handle rand env s session req = reply s session (render view flash)) :
    (∃ screen, answer rand categories env l s session req = .ok (some screen)) ↔
      ∃ page, pageOf categories env l s session req view = .ok page := by
  simp only [answer, ho, reply, render]
  cases pageOf categories env l s session req view with
  | error e => simp
  | ok page => simp [header_ok hu, Except.map]

theorem answer_of_raised {e : Exception} (ho : (handle rand env s session req).response.reply = .raised e) :
    answer rand categories env l s session req = .error e := by
  simp only [answer, ho]

theorem answer_of_redirect {path : Path} (ho : (handle rand env s session req).response.reply = .redirectTo path) :
    answer rand categories env l s session req = .ok none := by
  simp only [answer, ho]

end

/-- The requests that ask for a page. -/
def Request.isPage : Request → Bool
  | .root | .videosIndex | .videosShow _ | .videosSearch _ | .categoriesShow _ | .adminVideosNew
  | .queueItemsIndex | .usersNew _ | .usersShow _ | .relationshipsIndex | .sessionsNew | .forgotPasswordsNew
  | .forgotPasswordsConfirm | .passwordResetsShow _ | .passwordResetsExpiredToken | .invitationsNew => true
  | _ => false

/-- What has to be there for the page to be shown to the user. -/
def Shown (categories : Table Category) (s : Store) (user : User) : Request → Prop
  | .videosShow p => (find s.videos p).isSome
  | .usersShow p => ∃ id x, find s.users p = some (id, x) ∧ Collectable categories s id
  | .categoriesShow name => ∃ k c, categories.get k = some c ∧ c.name = name
  | .passwordResetsShow token => ∃ k x, s.users.get k = some x ∧ x.token = token
  | .adminVideosNew => user.admin = some true
  | _ => True

section
variable {rand : Nat → String} {categories : Table Category} {env : Env} {l : Listing} {w : World} {sid u : Nat}
  {user : User}

theorem usersShow_shown_iff (h : AppInv w) (hn : Named categories) (hu : ActsAs w.store (w.sessions sid) u user)
    (p : Param) :
    (∃ screen, answer rand categories env l w.store (w.sessions sid) (.usersShow p) = .ok (some screen)) ↔
      ∃ id x, find w.store.users p = some (id, x) ∧ Collectable categories w.store id := by
  cases hf : find w.store.users p with
  | none =>
    have ho : (handle rand env w.store (w.sessions sid) (.usersShow p)).response.reply =
        .raised .recordNotFound := by
      simp only [handle, users.show', requireLogin_of hu, hf]
      rfl
    rw [answer_of_raised ho]
    simp
  | some r =>
    obtain ⟨id, x⟩ := r
    obtain ⟨-, hid⟩ := find_some hf
    have ho : handle rand env w.store (w.sessions sid) (.usersShow p) =
        reply w.store (w.sessions sid) (render (.usersShow id) none) := by
      simp only [handle, users.show', requireLogin_of hu, hf]
    rw [answer_of_render hu ho]
    simp only [pageOf, hid, forUser, hu.1, Option.some.injEq, Prod.mk.injEq]
    rw [profilePage_ok_iff h.accounts h.reviews hn hid]
    refine ⟨fun hc => ⟨id, x, ⟨rfl, rfl⟩, hc⟩, ?_⟩
    rintro ⟨_, _, ⟨rfl, rfl⟩, hc⟩
    exact hc

theorem videosShow_shown_iff (h : AppInv w) (hu : ActsAs w.store (w.sessions sid) u user) (p : Param) :
    (∃ screen, answer rand categories env l w.store (w.sessions sid) (.videosShow p) = .ok (some screen)) ↔
      (find w.store.videos p).isSome := by
  cases hf : find w.store.videos p with
  | none =>
    have ho : (handle rand env w.store (w.sessions sid) (.videosShow p)).response.reply =
        .raised .recordNotFound := by
      simp only [handle, videos.show', requireLogin_of hu, hf]
      rfl
    rw [answer_of_raised ho]
    simp
  | some r =>
    have ho : handle rand env w.store (w.sessions sid) (.videosShow p) =
        reply w.store (w.sessions sid) (render (.videosShow r.1) none) := by
      simp only [handle, videos.show', requireLogin_of hu, hf]
    rw [answer_of_render hu ho]
    simp only [pageOf, forUser, hu.1, Option.isSome_some, iff_true]
    exact videoPage_ok h.reviews u r.1

theorem passwordResetsShow_shown_iff (hu : ActsAs w.store (w.sessions sid) u user) (token : Param) :
    (∃ screen, answer rand categories env l w.store (w.sessions sid) (.passwordResetsShow token) =
        .ok (some screen)) ↔ ∃ k x, w.store.users.get k = some x ∧ x.token = token := by
  cases hf : w.store.users.findBy env.take (fun user => user.token == token) with
  | none =>
    have ho : (handle rand env w.store (w.sessions sid) (.passwordResetsShow token)).response.reply =
        .redirectTo .expiredToken := by
      simp only [handle, passwordResets.show', hf]
      rfl
    rw [answer_of_redirect ho]
    constructor
    · rintro ⟨screen, hs⟩
      cases hs
    · rintro ⟨k, x, hk, ht⟩
      have := Table.findBy_none.mp hf k x hk
      simp [ht] at this
  | some r =>
    obtain ⟨hk, ht⟩ := Table.findBy_some hf
    have ho : handle rand env w.store (w.sessions sid) (.passwordResetsShow token) =
        reply w.store (w.sessions sid) (render (.passwordResetsShow r.2.token) none) := by
      simp only [handle, passwordResets.show', hf]
    rw [answer_of_render hu ho]
    exact ⟨fun _ => ⟨r.1, r.2, hk, by simpa using ht⟩, fun _ => ⟨_, rfl⟩⟩

theorem adminVideosNew_shown_iff (hu : ActsAs w.store (w.sessions sid) u user) :
    (∃ screen, answer rand categories env l w.store (w.sessions sid) .adminVideosNew = .ok (some screen)) ↔
      user.admin = some true := by
  by_cases ha : user.admin = some true
  · have ho : handle rand env w.store (w.sessions sid) .adminVideosNew =
        reply w.store (w.sessions sid) (render .adminVideosNew none) := by
      simp [handle, adminVideos.new, adminVideos.requireAdmin, requireLogin_of hu, ha]
    rw [answer_of_render hu ho]
    exact ⟨fun _ => ha, fun _ => ⟨_, rfl⟩⟩
  · have ho : (handle rand env w.store (w.sessions sid) .adminVideosNew).response.reply = .redirectTo .home := by
      simp [handle, adminVideos.new, adminVideos.requireAdmin, requireLogin_of hu, ha, reply, redirectTo]
    rw [answer_of_redirect ho]
    simp [ha]

theorem users_new_renders (rand : Nat → String) (env : Env) (s : Store) (session : Option Nat) (token : Param) :
    ∃ email t, handle rand env s session (.usersNew token) = reply s session (render (.usersNew email t) none) := by
  cases hf : findInvitation env s token with
  | none => exact ⟨none, none, by simp only [handle, users.new, hf]⟩
  | some r => exact ⟨r.2.friendEmail, r.2.token, by simp only [handle, users.new, hf]⟩

/-- A page behind the login that is there for every user. -/
theorem page_shown (hu : ActsAs w.store (w.sessions sid) u user) {req : Request} {view : View}
    (hreq : handle rand env w.store (w.sessions sid) req = page w.store (w.sessions sid) view)
    (hp : ∃ page, pageOf categories env l w.store (w.sessions sid) req view = .ok page) :
    ∃ screen, answer rand categories env l w.store (w.sessions sid) req = .ok (some screen) := by
  rw [page, requireLogin_of hu] at hreq
  exact (answer_of_render hu hreq).mpr hp

theorem shown_iff (rand : Nat → String) (env : Env) (l : Listing) (h : AppInv w) (hn : Named categories)
    (hu : ActsAs w.store (w.sessions sid) u user) {req : Request} (hp : req.isPage = true) :
    (∃ screen, answer rand categories env l w.store (w.sessions sid) req = .ok (some screen)) ↔
      Shown categories w.store user req := by
  cases req with
  | videosShow p => exact videosShow_shown_iff h hu p
  | usersShow p => exact usersShow_shown_iff h hn hu p
  | passwordResetsShow token => exact passwordResetsShow_shown_iff hu token
  | adminVideosNew => exact adminVideosNew_shown_iff hu
  | categoriesShow name =>
    have ho : handle rand env w.store (w.sessions sid) (.categoriesShow name) =
        reply w.store (w.sessions sid) (render .other none) := requireLogin_of hu _
    rw [answer_of_render hu ho]
    exact categoryPage_ok_iff hn name
  | videosIndex => exact iff_of_true (page_shown hu rfl (homePage_ok hn)) trivial
  | videosSearch p => exact iff_of_true (page_shown hu rfl (searchPage_ok p)) trivial
  | queueItemsIndex =>
    refine iff_of_true (page_shown hu rfl ?_) trivial
    simp only [pageOf, forUser, hu.1]
    exact queuePage_ok h.queues u
  | relationshipsIndex =>
    refine iff_of_true (page_shown hu rfl ?_) trivial
    simp only [pageOf, forUser, hu.1]
    exact peoplePage_ok h.graph h.accounts u
  | invitationsNew => exact iff_of_true (page_shown hu rfl ⟨_, rfl⟩) trivial
  | root | sessionsNew | forgotPasswordsNew | forgotPasswordsConfirm | passwordResetsExpiredToken =>
    exact iff_of_true ((answer_of_render hu rfl).mpr ⟨_, rfl⟩) trivial
  | usersNew token =>
    obtain ⟨email, t, ho⟩ := users_new_renders rand env w.store (w.sessions sid) token
    exact iff_of_true ((answer_of_render hu ho).mpr ⟨_, rfl⟩) trivial
  | ui | reviewsCreate _ _ | adminVideosCreate _ | queueItemsCreate _ | queueItemsUpdateQueue _
  | queueItemsDestroy _ | usersCreate _ _ _ | relationshipsCreate _ | relationshipsDestroy _
  | sessionsCreate _ _ | sessionsDestroy | forgotPasswordsCreate _ | passwordResetsCreate _ _
  | invitationsCreate _ => cases hp

end

/-- **When a page is shown.** In every state reached from one with the invariants, to a user who is
    logged in: the page of a video or of a category is shown exactly when there is one, the page
    of a user exactly when the user is there and every video in that user's queue has a category,
    the reset form exactly when somebody has the token, the form for a new video exactly to an
    admin, and every other page always. -/
theorem pages_shown_iff (rand : Nat → String) (categories : Table Category) (hn : Named categories) (w₀ : World)
    (h₀ : AppInv w₀) (es : List Event) (e : Event) (u : Nat) (user : User)
    (hu : ActsAs (run (World.step rand) w₀ es).store ((run (World.step rand) w₀ es).sessions e.sid) u user)
    (l : Listing) (hp : e.request.isPage = true) :
    let w := run (World.step rand) w₀ es
    (∃ screen, answer rand categories e.env l w.store (w.sessions e.sid) e.request = .ok (some screen)) ↔
      Shown categories w.store user e.request :=
  shown_iff rand e.env l (h₀.run es) hn hu hp

/-- Rows in the order of the table wherever the source leaves it open. -/
def Listing.stable : Listing := ⟨.stable _, .stable _, .stable _, .stable _, .stable _⟩

/-- A new installation with one category and two videos, the second without a category. -/
def genres : Table Category := Table.empty.insert ⟨some "comedies"⟩

def World.stocked : World where
  store := { Store.empty with
    videos := (Table.empty.insert ⟨some 1, some "Monk", some "A detective.", none, 0⟩).insert
      ⟨none, some "Futurama", some "A delivery boy.", none, 1⟩ }
  sessions := fun _ => none

theorem stocked_new : World.stocked.New := ⟨rfl, rfl, rfl, rfl, rfl, fun _ => rfl⟩

theorem appInv_stocked : AppInv World.stocked := stocked_new.appInv

theorem genres_named : Named genres := by
  intro k c hk
  rcases Table.get_insert_cases hk with ⟨rfl, -⟩ | hk
  · rfl
  · exact absurd hk (Table.not_get_of_no_rows rfl)

/-- Alice signs up, logs in and queues the first video. -/
def collecting : List Event :=
  [Event.fair 1 (.usersCreate (some ⟨some "alice", some "alice@example.com", some "password"⟩) none none),
   Event.fair 1 (.sessionsCreate (some "alice@example.com") (some "password")),
   Event.fair 1 (.queueItemsCreate (some "1"))]

/-- Her page is shown, and no longer once she has queued the second one. -/
theorem pages_shown_iff_small :
    let shown := fun w : World => ∃ screen,
      answer tally genres .fair .stable w.store (w.sessions 1) (.usersShow (some "1")) = .ok (some screen)
    shown (run (World.step tally) World.stocked collecting) ∧
      ¬ shown (run (World.step tally) World.stocked
        (collecting ++ [Event.fair 1 (.queueItemsCreate (some "2"))])) := by
  intro shown
  have hyes := pages_shown_iff tally genres genres_named World.stocked appInv_stocked collecting
    (Event.fair 1 (.usersShow (some "1"))) 1
    ⟨some "alice", some "alice@example.com", some ⟨0, "password"⟩, some "", none⟩ ⟨by decide, by decide⟩ .stable rfl
  have hno := pages_shown_iff tally genres genres_named World.stocked appInv_stocked
    (collecting ++ [Event.fair 1 (.queueItemsCreate (some "2"))])
    (Event.fair 1 (.usersShow (some "1"))) 1
    ⟨some "alice", some "alice@example.com", some ⟨0, "password"⟩, some "", none⟩ ⟨by decide, by decide⟩ .stable rfl
  refine ⟨hyes.mpr ?_, ?_⟩
  · refine ⟨1, _, rfl, ?_⟩
    intro r hr
    have hq : (run (World.step tally) World.stocked collecting).store.queueOf 1 = [(1, ⟨1, 1, 1⟩)] := by decide
    rw [hq, List.mem_singleton] at hr
    subst hr
    exact ⟨⟨some 1, some "Monk", some "A detective.", none, 0⟩, by decide, by decide⟩
  · intro h
    obtain ⟨id, x, hf, hc⟩ := hno.mp h
    have hid : id = 1 := by
      have hk := (find_some hf).1
      have hk1 : Param.key (some "1") = some 1 := by decide
      exact (Option.some.inj (hk1.symm.trans hk)).symm
    subst hid
    obtain ⟨v, hv, hcat⟩ := hc (2, ⟨1, 2, 2⟩) (by decide)
    have hv' : (run (World.step tally) World.stocked
        (collecting ++ [Event.fair 1 (.queueItemsCreate (some "2"))])).store.videos.get 2 =
        some ⟨none, some "Futurama", some "A delivery boy.", none, 1⟩ := by decide
    obtain rfl := Option.some.inj (hv'.symm.trans hv)
    cases hcat

end Myflix
