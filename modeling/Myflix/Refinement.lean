import Myflix.Navigation
import Myflix.Site

/- The application does what the site is for. `World.site` forgets the tables: keys
   of items and relationships, rankings, tokens and rows that say the same.
   `Means` reads a request: what the person at the browser wants, in the words of
   the site, with nothing said about whether they may have it. Then one request of
   the application is one step of the site, done exactly when the site can do it.

   What is proved:
     1. `app_refines_site`: along every run, every request does the action it means
        if it can be done and leaves the site as it is otherwise; and the site is
        sound after every run. -/
namespace Myflix
open Relational Rails Transition

/-! The site behind a world. -/

def User.member (x : User) : Member := ⟨x.username, x.email, x.passwordDigest, x.admin == some true⟩

def Review.opinion (r : Review) : Opinion := ⟨r.rating, r.content⟩

def siteOf (s : Store) (sessions : Nat → Option Nat) : Site where
  members id := (s.users.get id).map User.member
  videos id := s.videos.get id
  queue u := (s.queueList u).map Prod.snd
  opinion u v := (s.reviewOf u v).map (fun r => r.2.opinion)
  follows u v := follows s u v = true
  invited u email := ∃ k i, s.invitations.get k = some i ∧ i.inviterId = u ∧ i.friendEmail = email
  browser := sessions

def World.site (w : World) : Site := siteOf w.store w.sessions

/-! What a request means. -/

/-- The action for what was named, if anything was. -/
def Action.of {α : Type} (x : Option α) (f : α → Action) : Action := (x.map f).getD .nothing

/-- The video of the item that is named, if it is an item of the session's user. -/
def itemNamed (s : Store) (session : Option Nat) (p : Param) : Option Nat :=
  (find s.queueItems p).bind (fun r => if session = some r.2.userId then some r.2.videoId else none)

/-- Whom the relationship that is named is to, if it is one of the session's user. -/
def leaderNamed (s : Store) (session : Option Nat) (p : Param) : Option Nat :=
  (find s.relationships p).bind (fun r => if session.isSome ∧ r.2.followerId = session then r.2.leaderId else none)

/-- The order and the ratings a queue form asks for: smaller positions first, and the ratings
    of the entries for each video one after the other. -/
def Arranges (s : Store) (u : Nat) (entries : List QueueItemData) (a : Action) : Prop :=
  ∃ l : List (Nat × Nat), l.Perm (s.queueList u) ∧
    l.Pairwise (fun x y => submittedRanking s entries x ≤ submittedRanking s entries y) ∧
    a = .arrange (l.map Prod.snd) (fun v => (ratingsFor s u entries v).foldl rate (s.ratingOf u v))

/-- The invitation can be stored. -/
def InvitationParams.complete (p : InvitationParams) : Bool :=
  !Param.blank p.friendName && !Param.blank p.friendEmail && !Param.blank p.message &&
    (fitsString p.friendName && fitsString p.friendEmail)

/-- The card is charged and the password is long enough, and the strings fit their columns. -/
def UserParams.complete (env : Env) (p : UserParams) (stripeToken : Param) : Bool :=
  passwordValid (NewUser.new p env.salt).password && (signupCharge env stripeToken).successful &&
    (NewUser.new p env.salt).fits

/-- The member a sign-up makes, with the name and the address as their columns keep them. -/
def UserParams.member (env : Env) (p : UserParams) : Member :=
  ⟨truncated p.username, truncated p.email, setPassword env.salt none p.password, false⟩

/-- The video can be stored. -/
def VideoParams.complete (env : Env) (p : VideoParams) : Bool :=
  (adminVideos.newVideo env p).valid && env.uploads &&
    (fitsString p.title && fitsString p.videoUrl && fitsColumn p.categoryId.assigned)

def Means (w : World) (e : Event) (a : Action) : Prop :=
  match e.request with
  | .queueItemsCreate p => a = .of (Param.key p) .enqueue
  | .queueItemsDestroy p => a = .of (itemNamed w.store (w.sessions e.sid) p) .dequeue
  | .queueItemsUpdateQueue (some entries) =>
    -- a form that is not accepted as a whole asks for nothing
    (∃ u, w.sessions e.sid = some u ∧ Accepted w.store u entries ∧ Arranges w.store u entries a) ∨
      ((∀ u, w.sessions e.sid = some u → ¬ Accepted w.store u entries) ∧ a = .nothing)
  | .reviewsCreate p (some params) =>
    a = if ratingValid params.rating then
        .of (Param.key p) (fun v => .review v params.rating.toI params.content)
      else .nothing
  | .relationshipsCreate p => a = .of (Param.key p) .follow
  | .relationshipsDestroy p => a = .of (leaderNamed w.store (w.sessions e.sid) p) .unfollow
  | .invitationsCreate (some params) => a = if params.complete then .invite params.friendEmail else .nothing
  | .usersCreate (some params) stripeToken token =>
    a = if params.complete e.env stripeToken then
        .join (params.member e.env)
          ((findInvitation e.env w.store token).map (fun r => r.2.inviterId))
      else .nothing
  | .passwordResetsCreate token password =>
    a = .of (w.store.users.findBy e.env.take (fun user => user.token == token))
      (fun r => .resetPassword r.1 (setPassword e.env.salt r.2.passwordDigest password))
  | .adminVideosCreate (some params) =>
    a = if params.complete e.env then .publish (adminVideos.newVideo e.env params).stored else .nothing
  | .sessionsCreate email password => a = .logIn email password
  | .sessionsDestroy => a = .logOut
  | _ => a = .nothing

/-! The parts of the site. -/

section
variable {s s' : Store} {sessions : Nat → Option Nat} {u : Nat}

theorem site_members_isSome {id : Nat} : ((siteOf s sessions).members id).isSome ↔ (s.users.get id).isSome := by
  simp [siteOf]

theorem mem_site_queue {v : Nat} : v ∈ (siteOf s sessions).queue u ↔ ∃ r ∈ s.queueOf u, r.2.videoId = v :=
  mem_queueList_snd

theorem site_opinion_none {v : Nat} : (siteOf s sessions).opinion u v = none ↔ s.reviewOf u v = none := by
  simp [siteOf]

theorem site_opinion_rating (s : Store) (sessions : Nat → Option Nat) (u v : Nat) :
    ((siteOf s sessions).opinion u v).map Opinion.rating = s.ratingOf u v := by
  simp only [siteOf, Store.ratingOf, Option.map_map]
  rfl

/-- Only the items of one user have changed. -/
theorem siteOf_items (hs : s' = { s with queueItems := s'.queueItems })
    (hother : ∀ x, x ≠ u → s'.queueOf x = s.queueOf x) :
    siteOf s' sessions = { siteOf s sessions with
      queue := Function.update (siteOf s sessions).queue u ((s'.queueList u).map Prod.snd) } := by
  refine Site.ext (by rw [hs]; rfl) (by rw [hs]; rfl) (Function.eq_update_iff.mpr ⟨rfl, ?_⟩) (by rw [hs]; rfl)
    (by rw [hs]; rfl) (by rw [hs]; rfl) rfl
  intro x hx
  exact congrArg (List.map Prod.snd) (queueList_of_eq (hother x hx))

theorem follows_insert (s : Store) (x y leader follower : Nat) :
    follows { s with relationships := s.relationships.insert ⟨some leader, some follower⟩ } x y = true ↔
      follows s x y = true ∨ (x = follower ∧ y = leader) := by
  simp only [follows, Table.insert_rows, List.any_append, List.any_cons, List.any_nil, Bool.or_false,
    Bool.or_eq_true, Bool.and_eq_true, beq_iff_eq, Option.some.injEq]
  exact or_congr Iff.rfl (and_congr eq_comm eq_comm)

theorem follows_delete (h : FollowGraph s) {k leader follower : Nat}
    (hk : s.relationships.get k = some ⟨some leader, some follower⟩) (x y : Nat) :
    follows { s with relationships := s.relationships.delete k } x y = true ↔
      follows s x y = true ∧ ¬ (x = follower ∧ y = leader) := by
  rw [follows_iff, follows_iff]
  refine ⟨?_, ?_⟩
  · rintro ⟨j, r, hj, hf, hl⟩
    have hj : (s.relationships.delete k).get j = some r := hj
    rw [Table.get_delete] at hj
    split at hj
    · cases hj
    · next hjk =>
      refine ⟨⟨j, r, hj, hf, hl⟩, ?_⟩
      rintro ⟨rfl, rfl⟩
      exact hjk (h.once j k r _ hj hk (by simp only [hf, hl]))
  · rintro ⟨⟨j, r, hj, hf, hl⟩, hne⟩
    refine ⟨j, r, ?_, hf, hl⟩
    show (s.relationships.delete k).get j = some r
    rw [Table.get_delete, if_neg ?_]
    · exact hj
    · rintro rfl
      rw [hk] at hj
      obtain rfl := Option.some.inj hj
      exact hne ⟨(Option.some.inj hf).symm, (Option.some.inj hl).symm⟩

end

/-! Requests, one by one. -/

section
variable {rand : Nat → String} {env : Env} {w : World} {b : Nat}

theorem step_refused {t : Site} {a : Action} (h : ∀ t', ¬ t.Does b a t') : t.Step b a t := .inr ⟨rfl, h⟩

theorem step_nothing (t : Site) : t.Step b .nothing t := by
  refine step_refused ?_
  intro t' h
  cases h

/-- Behind the login: nothing happens for a visitor, and a member is found. -/
theorem session_cases (h : AppInv w) (b : Nat) :
    (w.sessions b = none ∧ ∀ action, (requireLogin w.store (w.sessions b) action).store = w.store) ∨
    ∃ u user, ActsAs w.store (w.sessions b) u user := by
  cases hs : w.sessions b with
  | none => exact .inl ⟨rfl, fun _ => rfl⟩
  | some u =>
    obtain ⟨user, hu⟩ := h.actsAs hs
    exact .inr ⟨u, user, hs ▸ hu⟩

/-- What only a member can want is not done for a visitor. -/
theorem step_visitor (hs : w.sessions b = none) {a : Action}
    (ha : ∀ t, w.site.Does b a t → ∃ u, w.site.browser b = some u) : w.site.Step b a w.site := by
  refine step_refused ?_
  intro t ht
  obtain ⟨u, hb⟩ := ha t ht
  exact absurd (hs.symm.trans hb) (by simp)

theorem create_store {s : Store} {session : Option Nat} {u v : Nat} {user : User} (hu : ActsAs s session u user)
    {p : Param} (hp : Param.key p = some v) (hv : (s.videos.get v).isSome)
    (hnew : v ∉ (s.queueList u).map Prod.snd) :
    (queueItems.create s session p).store =
      { s with queueItems := s.queueItems.insert ⟨u, v, ((s.queueOf u).length : Int) + 1⟩ } := by
  obtain ⟨video, hv⟩ := Option.isSome_iff_exists.mp hv
  have hi := Param.toI_of_key hp
  have hex : queueItems.videoDoesntExist s p = false := by
    simp [queueItems.videoDoesntExist, find_of_key hp, hv]
  have hin : queueItems.videoAlreadyInUsersQueue s u p = false := by
    simp only [queueItems.videoAlreadyInUsersQueue, List.any_eq_false, beq_iff_eq]
    intro r hr he
    exact hnew (mem_queueList_snd.mpr ⟨r, hr, by omega⟩)
  simp only [queueItems.create, requireLogin_of hu, hex, hin, Bool.or_self, Bool.false_eq_true, if_false, reply,
    queueItems.createNewQueueItem, hi, Int.toNat_natCast]

theorem enqueue_refines (h : AppInv w) (p : Param) :
    w.site.Step b (.of (Param.key p) .enqueue)
      (siteOf (queueItems.create w.store (w.sessions b) p).store w.sessions) := by
  rcases session_cases h b with ⟨hs, hlogin⟩ | ⟨u, user, hu⟩
  · rw [queueItems.create, hlogin]
    refine step_visitor hs ?_
    intro t ht
    cases hk : Param.key p with
    | none => rw [hk] at ht; cases ht
    | some v =>
      rw [hk] at ht
      cases ht with
      | enqueue hb => exact ⟨_, hb⟩
  · cases hk : Param.key p with
    | none =>
      rw [create_refuses hu (fun v hv => by rw [hk] at hv; cases hv)]
      exact step_nothing _
    | some v =>
      by_cases hok : (w.store.videos.get v).isSome ∧ v ∉ (w.store.queueList u).map Prod.snd
      · have hq := queueList_enqueue (u := u) h.queues v
        rw [create_store hu hk hok.1 hok.2, siteOf_items (u := u) rfl ?_, hq, List.map_append]
        · exact .inl (.enqueue hu.1 hok.1 hok.2)
        · intro x hx
          rw [queueOf_insert, if_neg (Ne.symm hx), List.append_nil]
      · rw [create_refuses hu ?_]
        · refine step_refused ?_
          intro t ht
          cases ht with
          | enqueue hb hv hnew =>
            obtain rfl := Option.some.inj (hu.1.symm.trans hb)
            exact hok ⟨hv, hnew⟩
        · intro v' hv' hstored
          obtain rfl := Option.some.inj (hk.symm.trans hv')
          by_contra hnew
          exact hok ⟨hstored, hnew⟩

theorem queueList_videos_nodup {s : Store} (h : QueueInv s) (u : Nat) : ((s.queueList u).map Prod.snd).Nodup := by
  rw [Store.queueList, List.map_map]
  exact ((listing_perm s u).map (fun r => r.2.videoId)).nodup_iff.mpr (h.nodup u)

/-- Taking out an item takes out its video. -/
theorem queueList_filter {s : Store} (h : QueueInv s) {u id : Nat} {q : QueueItem} (hq : s.queueItems.get id = some q)
    (hown : q.userId = u) :
    ((s.queueList u).filter (fun x => x.1 != id)).map Prod.snd =
      ((s.queueList u).map Prod.snd).filter (· != q.videoId) := by
  rw [List.filter_map]
  congr 1
  apply List.filter_congr
  intro x hx
  have hmem : (id, q.videoId) ∈ s.queueList u := mem_queueList.mpr ⟨q, hq, hown, rfl⟩
  have hiff : x.1 = id ↔ x.2 = q.videoId := by
    refine ⟨?_, ?_⟩
    · intro hid
      obtain ⟨q', hq', -, hv'⟩ := mem_queueList.mp hx
      rw [hid, hq] at hq'
      rw [← hv', Option.some.inj hq']
    · intro hv
      exact congrArg Prod.fst (List.inj_on_of_nodup_map (queueList_videos_nodup h u) hx hmem hv)
  by_cases hid : x.1 = id
  · simp [hid, hiff.mp hid]
  · exact (bne_iff_ne.mpr hid).trans (bne_iff_ne.mpr (mt hiff.mpr hid)).symm

/-- Renumbering is not seen. -/
theorem siteOf_tidy {s : Store} (h : QueueInv s) (sessions : Nat → Option Nat) (u : Nat) :
    siteOf (normaliseQueueItemRankings env s u) sessions = siteOf s sessions := by
  refine (siteOf_items (u := u) rfl (fun x hx => normalise_queueOf_other hx)).trans ?_
  have hq : ((normaliseQueueItemRankings env s u).queueList u).map Prod.snd = (siteOf s sessions).queue u :=
    congrArg (List.map Prod.snd) (queueList_tidy h)
  refine Site.ext rfl rfl ?_ rfl rfl rfl rfl
  exact (congrArg _ hq).trans (Function.update_eq_self u _)

theorem dequeue_refines (h : AppInv w) (p : Param) :
    w.site.Step b (.of (itemNamed w.store (w.sessions b) p) .dequeue)
      (siteOf (queueItems.destroy env w.store (w.sessions b) p).store w.sessions) := by
  rcases session_cases h b with ⟨hs, hlogin⟩ | ⟨u, user, hu⟩
  · have hnone : itemNamed w.store (w.sessions b) p = none := by simp [itemNamed, hs]
    rw [queueItems.destroy, hlogin, hnone]
    exact step_nothing _
  · simp only [queueItems.destroy, requireLogin_of hu]
    cases hf : find w.store.queueItems p with
    | none =>
      have hnone : itemNamed w.store (w.sessions b) p = none := by simp [itemNamed, hf]
      rw [hnone]
      exact step_nothing _
    | some r =>
      obtain ⟨id, q⟩ := r
      obtain ⟨hk, hq⟩ := find_some hf
      by_cases hown : q.userId = u
      · have hnamed : itemNamed w.store (w.sessions b) p = some q.videoId := by simp [itemNamed, hf, hu.1, hown]
        simp only [queueItems.destroyIfOwn, hown, beq_self_eq_true, if_true, reply]
        refine .inl ?_
        rw [hnamed, siteOf_items (s := w.store) (u := u) rfl ?_, queueList_dequeue h.queues hq hown,
          queueList_filter h.queues hq hown]
        · exact .dequeue hu.1 (mem_site_queue.mpr ⟨(id, q), mem_queueOf.mpr ⟨hq, hown⟩, rfl⟩)
        · intro x hx
          exact (normalise_queueOf_other hx).trans (queueOf_delete_other hq hown hx)
      · have hnone : itemNamed w.store (w.sessions b) p = none := by
          simp only [itemNamed, hf, hu.1, Option.bind_some, Option.some.injEq]
          exact if_neg (Ne.symm hown)
        simp only [queueItems.destroyIfOwn, beq_iff_eq, hown, if_false, reply]
        rw [hnone, siteOf_tidy h.queues]
        exact step_nothing _

/-! The queue form. -/

theorem reviewOf_congr {s s' : Store} (h' : ReviewInv s') {x : Nat}
    (he : ∀ k r, r.userId = x → (s'.reviews.get k = some r ↔ s.reviews.get k = some r)) (v : Nat) :
    s'.reviewOf x v = s.reviewOf x v := by
  cases hr : s.reviewOf x v with
  | none =>
    rw [reviewOf_none] at hr ⊢
    intro k r hk hx
    exact hr k r ((he k r hx).mp hk) hx
  | some r =>
    obtain ⟨hk, hx, hv⟩ := reviewOf_some (k := r.1) (r := r.2) hr
    rw [← hx, ← hv]
    exact h'.reviewOf_eq ((he r.1 r.2 hx).mpr hk)

/-- A review the form has added has no text. -/
theorem updateQueueItems_content {s s' : Store} {u : Nat} {entries : List QueueItemData}
    (h : queueItems.updateQueueItems s u entries = .ok s') {k : Nat} {r : Review} (hk : s'.reviews.get k = some r) :
    (∃ r₀, s.reviews.get k = some r₀ ∧ r₀.userId = r.userId ∧ r₀.videoId = r.videoId) ∨ r.content = none := by
  refine updateQueueItems_inv (I := fun x => ∀ k r, x.reviews.get k = some r →
    (∃ r₀, s.reviews.get k = some r₀ ∧ r₀.userId = r.userId ∧ r₀.videoId = r.videoId) ∨ r.content = none)
    ?_ (fun _ r hk => .inl ⟨r, hk, rfl, rfl⟩) h k r hk
  intro d _ x x' hx hd k r hk
  obtain ⟨id, q, -, -, ⟨-, rfl⟩ | ⟨-, -, -, x₁, hs, rfl⟩⟩ := updateQueueItem_cases hd
  · exact hx k r hk
  · have hk : x₁.reviews.get k = some r := hk
    obtain ⟨-, -, ⟨j, r₁, -, -, rfl⟩ | ⟨-, rfl⟩⟩ := setRating_cases hs
    · rcases Table.get_update_cases hk with ⟨a, ha, rfl⟩ | ⟨-, hk⟩
      · exact hx _ a ha
      · exact hx k r hk
    · unfold createReview at hk
      split at hk
      · rcases Table.get_insert_cases hk with ⟨rfl, -⟩ | hk
        · exact .inr rfl
        · exact hx k r hk
      · exact hx k r hk

/-- After the form, an opinion is the new rating with the old text. -/
theorem opinion_arranged {s s' : Store} (h' : ReviewInv s') {u : Nat} {entries : List QueueItemData}
    (hr : queueItems.updateQueueItems s u entries = .ok s') (sessions : Nat → Option Nat) (v : Nat) :
    (siteOf s' sessions).opinion u v =
      (s'.ratingOf u v).map (fun n => ⟨n, ((siteOf s sessions).opinion u v).bind Opinion.content⟩) := by
  have hkept : ReviewsKept s s' := updateQueueItems_reviews_inv (I := ReviewsKept s)
    (fun x x' _ heq hx k r hk => heq ▸ hx k r hk) (fun x t hw hx => hx.trans hw.kept) hr (.refl s)
  cases hv' : s'.reviewOf u v with
  | none => simp [siteOf, Store.ratingOf, hv']
  | some r' =>
    obtain ⟨hk', hu', hw'⟩ := reviewOf_some (k := r'.1) (r := r'.2) hv'
    have hcontent : r'.2.content = ((siteOf s sessions).opinion u v).bind Opinion.content := by
      cases hv : s.reviewOf u v with
      | none =>
        rcases updateQueueItems_content hr hk' with ⟨r₀, hk₀, hu₀, hv₀⟩ | hc
        · exact absurd (hv₀.trans hw') (reviewOf_none.mp hv _ r₀ hk₀ (hu₀.trans hu'))
        · simp [siteOf, hv, hc]
      | some r =>
        obtain ⟨hk, hu, hw⟩ := reviewOf_some (k := r.1) (r := r.2) hv
        obtain ⟨r₁, hk₁, hu₁, hv₁, hc₁⟩ := hkept r.1 r.2 hk
        have heq := h'.reviewOf_eq hk₁
        rw [hu₁, hv₁, hu, hw, hv'] at heq
        obtain rfl := Option.some.inj heq
        simp [siteOf, hv, Review.opinion, ← hc₁]
    simp [siteOf, Store.ratingOf, hv', Review.opinion, hcontent]

/-- Ratings for videos that are not queued are not taken. -/
theorem ratingsFor_not_queued {s : Store} {u v : Nat} {entries : List QueueItemData}
    (hv : v ∉ (s.queueList u).map Prod.snd) : ratingsFor s u entries v = [] := by
  rw [ratingsFor, List.map_eq_nil_iff, List.filter_eq_nil_iff]
  intro d _ hd
  obtain ⟨r, hf, hr⟩ := Option.bind_eq_some_iff.mp (beq_iff_eq.mp hd)
  obtain ⟨-, hq⟩ := find_some (k := r.1) (a := r.2) hf
  split at hr
  · next hown => exact hv (mem_queueList_snd.mpr ⟨r, mem_queueOf.mpr ⟨hq, hown⟩, Option.some.inj hr⟩)
  · cases hr

theorem arrange_refines (env : Env) (b : Nat) (h : AppInv w) (entries : List QueueItemData) :
    ∃ a, ((∃ u, w.sessions b = some u ∧ Accepted w.store u entries ∧ Arranges w.store u entries a) ∨
        ((∀ u, w.sessions b = some u → ¬ Accepted w.store u entries) ∧ a = .nothing)) ∧
      w.site.Step b a (siteOf (queueItems.updateQueue env w.store (w.sessions b) (some entries)).store w.sessions) := by
  rcases session_cases h b with ⟨hs, hlogin⟩ | ⟨u, user, hu⟩
  · refine ⟨.nothing, .inr ⟨fun u hu => ?_, rfl⟩, ?_⟩
    · rw [hs] at hu
      cases hu
    · rw [queueItems.updateQueue, hlogin]
      exact step_nothing _
  · by_cases hacc : Accepted w.store u entries
    · obtain ⟨s₁, hr⟩ := (updateQueueItems_ok_iff w.store u entries).mpr hacc
      have hte : TakesEffect w.store (normaliseQueueItemRankings env s₁ u) u entries := takesEffect_of_ok h.queues hr
      have hrev : ReviewInv s₁ := updateQueueItems_reviews_inv (fun _ _ hk heq hx => hx.of_same hk heq)
        (fun _ _ hw hx => hx.write hw) hr h.reviews
      obtain ⟨hfu, hfv, hfr, hfi, -⟩ := updateQueueItems_frame hr
      refine ⟨_, .inl ⟨u, hu.1, hacc, _, hte.perm, hte.sorted, rfl⟩, ?_⟩
      rw [updateQueue_of_ok hu hr]
      have hsite : siteOf (normaliseQueueItemRankings env s₁ u) w.sessions = { w.site with
          queue := Function.update w.site.queue u
            (((normaliseQueueItemRankings env s₁ u).queueList u).map Prod.snd)
          opinion := Function.update w.site.opinion u (fun v =>
            ((ratingsFor w.store u entries v).foldl rate (w.store.ratingOf u v)).map
              (fun n => ⟨n, (w.site.opinion u v).bind Opinion.content⟩)) } := by
        refine Site.ext (congrArg (fun t : Table User => fun id => (t.get id).map User.member) hfu)
          (congrArg Table.get hfv) (Function.eq_update_iff.mpr ⟨rfl, ?_⟩) (Function.eq_update_iff.mpr ⟨?_, ?_⟩)
          ?_ ?_ rfl
        · intro x hx
          exact congrArg (List.map Prod.snd) (queueList_of_eq (hte.queues x hx))
        · funext v
          rw [← updateQueueItems_ratingOf hr v]
          exact opinion_arranged hrev hr w.sessions v
        · intro x hx
          funext v
          exact congrArg (Option.map (fun r : Nat × Review => r.2.opinion))
            (reviewOf_congr hrev (fun k r hrx => hte.reviews k r (hrx ▸ hx)) v)
        · funext x y
          simp only [siteOf, World.site, follows, normaliseQueueItemRankings, hfr]
        · funext x y
          simp only [siteOf, World.site, normaliseQueueItemRankings, hfi]
      show w.site.Step b _ (siteOf (normaliseQueueItemRankings env s₁ u) w.sessions)
      rw [hsite]
      refine .inl (.arrange hu.1 (hte.perm.map _) ?_ ?_)
      · intro v hv
        rw [foldl_rate_isSome, ← site_opinion_rating w.store w.sessions]
        simp only [Option.isSome_map, Bool.or_eq_true]
        exact .inl hv
      · intro v hv
        rw [ratingsFor_not_queued hv, List.foldl_nil]
        exact (site_opinion_rating w.store w.sessions u v).symm
    · refine ⟨.nothing, .inr ⟨fun x hx => ?_, rfl⟩, ?_⟩
      · obtain rfl := Option.some.inj (hu.1.symm.trans hx)
        exact hacc
      · rw [(updateQueue_of_not_ok hu (fun hex => hacc ((updateQueueItems_ok_iff _ _ _).mp hex))).2]
        exact step_nothing _

/-! Reviews, relationships and invitations. -/

theorem alreadyReviewed_iff {s : Store} {u v : Nat} : reviews.alreadyReviewed s u v = true ↔ s.reviewOf u v ≠ none := by
  rw [Ne, reviewOf_none, reviews.alreadyReviewed, List.any_eq_true]
  simp only [Bool.and_eq_true, beq_iff_eq, not_forall, Decidable.not_not]
  refine ⟨?_, ?_⟩
  · rintro ⟨r, hr, hv, hu⟩
    exact ⟨r.1, r.2, Table.get_eq_some.mpr hr, hu, hv⟩
  · rintro ⟨k, r, hk, hu, hv⟩
    exact ⟨(k, r), Table.get_eq_some.mp hk, hv, hu⟩

theorem ratingValid_iff {p : Param} (h : ratingValid p = true) :
    p.int = some p.toI ∧ 1 ≤ p.toI ∧ p.toI ≤ 5 := by
  simp only [ratingValid, Bool.and_eq_true, decide_eq_true_eq] at h
  cases p with
  | none => cases h.1
  | some t => exact ⟨rfl, h.2⟩

theorem siteOf_review {s : Store} (sessions : Nat → Option Nat) {u v : Nat} (hnew : s.reviewOf u v = none)
    (n : Option Int) (content : Option String) :
    siteOf { s with reviews := s.reviews.insert ⟨u, v, n, content⟩ } sessions = { siteOf s sessions with
      opinion := Function.update (siteOf s sessions).opinion u
        (Function.update ((siteOf s sessions).opinion u) v (some ⟨n, content⟩)) } := by
  refine Site.ext rfl rfl rfl (Function.eq_update_iff.mpr ⟨Function.eq_update_iff.mpr ⟨?_, ?_⟩, ?_⟩) rfl rfl rfl
  · simp [siteOf, reviewOf_insert, hnew, Review.opinion]
  · intro y hy
    simp [siteOf, reviewOf_insert, Ne.symm hy]
  · intro x hx
    funext y
    simp [siteOf, reviewOf_insert, Ne.symm hx]

theorem review_refines (h : AppInv w) (p : Param) (params : ReviewParams) :
    w.site.Step b
      (if ratingValid params.rating then .of (Param.key p) (fun v => .review v params.rating.toI params.content)
        else .nothing)
      (siteOf (reviews.create w.store (w.sessions b) p (some params)).store w.sessions) := by
  rcases session_cases h b with ⟨hs, hlogin⟩ | ⟨u, user, hu⟩
  · rw [reviews.create, hlogin]
    refine step_visitor hs ?_
    intro t ht
    split at ht
    · cases hk : Param.key p with
      | none => rw [hk] at ht; cases ht
      | some v =>
        rw [hk] at ht
        cases ht with
        | review hb => exact ⟨_, hb⟩
    · cases ht
  · simp only [reviews.create, requireLogin_of hu]
    cases hk : Param.key p with
    | none =>
      have hf : find w.store.videos p = none := by simp [find, hk]
      simp only [hf, reply, raised]
      split <;> exact step_nothing _
    | some v =>
      cases hv : w.store.videos.get v with
      | none =>
        have hf : find w.store.videos p = none := by simp [find_of_key hk, hv]
        simp only [hf]
        split
        · refine step_refused ?_
          intro t ht
          cases ht with
          | review _ hv' => exact absurd hv' (by simp [World.site, siteOf, hv])
        · exact step_nothing _
      | some video =>
        have hf : find w.store.videos p = some (v, video) := by simp [find_of_key hk, hv]
        simp only [hf]
        by_cases hold : reviews.alreadyReviewed w.store u v = true
        · simp only [hold, if_true]
          split
          · refine step_refused ?_
            intro t ht
            cases ht with
            | review hb _ hnew =>
              obtain rfl := Option.some.inj (hu.1.symm.trans hb)
              exact alreadyReviewed_iff.mp hold (site_opinion_none.mp hnew)
          · exact step_nothing _
        · have hnew : w.store.reviewOf u v = none := by
            by_contra hne
            exact hold (alreadyReviewed_iff.mpr hne)
          simp only [hold]
          by_cases hr : ratingValid params.rating = true
          · obtain ⟨hint, hrange⟩ := ratingValid_iff hr
            simp only [hr, if_true, Bool.false_eq_true, if_false, reply, createReview]
            rw [siteOf_review w.sessions hnew, hint]
            exact .inl (.review hu.1 (by simp [World.site, siteOf, hv]) (site_opinion_none.mpr hnew) hrange)
          · simp only [hr]
            exact step_nothing _

theorem follow_refines (h : AppInv w) (p : Param) :
    w.site.Step b (.of (Param.key p) .follow)
      (siteOf (relationships.create w.store (w.sessions b) p).store w.sessions) := by
  rcases session_cases h b with ⟨hs, hlogin⟩ | ⟨u, user, hu⟩
  · rw [relationships.create, hlogin]
    refine step_visitor hs ?_
    intro t ht
    cases hk : Param.key p with
    | none => rw [hk] at ht; cases ht
    | some id =>
      rw [hk] at ht
      cases ht with
      | follow hb => exact ⟨_, hb⟩
  · simp only [relationships.create, requireLogin_of hu]
    cases hk : Param.key p with
    | none =>
      have hf : find w.store.users p = none := by simp [find, hk]
      simp only [hf]
      exact step_nothing _
    | some id =>
      cases hid : w.store.users.get id with
      | none =>
        have hf : find w.store.users p = none := by simp [find_of_key hk, hid]
        simp only [hf]
        refine step_refused ?_
        intro t ht
        cases ht with
        | follow _ hm => exact absurd (site_members_isSome.mp hm) (by simp [hid])
      | some leader =>
        have hf : find w.store.users p = some (id, leader) := by simp [find_of_key hk, hid]
        simp only [hf]
        by_cases hc : canFollow w.store u id = true
        · obtain ⟨hno, hne⟩ := canFollow_iff.mp hc
          simp only [hc, if_true, reply]
          have hsite : siteOf { w.store with relationships := w.store.relationships.insert ⟨some id, some u⟩ }
              w.sessions = { w.site with follows := fun x y => w.site.follows x y ∨ (x = u ∧ y = id) } := by
            refine Site.ext rfl rfl rfl rfl ?_ rfl rfl
            funext x y
            exact propext (follows_insert w.store x y id u)
          rw [hsite]
          exact .inl (.follow hu.1 (site_members_isSome.mpr (by simp [hid])) hne (by simp [World.site, siteOf, hno]))
        · simp only [hc]
          refine step_refused ?_
          intro t ht
          cases ht with
          | follow hb _ hne hnew =>
            obtain rfl := Option.some.inj (hu.1.symm.trans hb)
            exact hc (canFollow_iff.mpr ⟨by simpa [World.site, siteOf] using hnew, hne⟩)

theorem unfollow_refines (h : AppInv w) (p : Param) :
    w.site.Step b (.of (leaderNamed w.store (w.sessions b) p) .unfollow)
      (siteOf (relationships.destroy w.store (w.sessions b) p).store w.sessions) := by
  rcases session_cases h b with ⟨hs, hlogin⟩ | ⟨u, user, hu⟩
  · have hnone : leaderNamed w.store (w.sessions b) p = none := by simp [leaderNamed, hs]
    rw [relationships.destroy, hlogin, hnone]
    exact step_nothing _
  · simp only [relationships.destroy, requireLogin_of hu]
    cases hf : find w.store.relationships p with
    | none =>
      have hnone : leaderNamed w.store (w.sessions b) p = none := by simp [leaderNamed, hf]
      rw [hnone]
      exact step_nothing _
    | some r =>
      obtain ⟨id, r⟩ := r
      obtain ⟨hk, hr⟩ := find_some hf
      by_cases hown : r.followerId = some u
      · obtain ⟨follower, leader, hfo, hle, -, -⟩ := h.graph.ends id r hr
        obtain rfl : follower = u := Option.some.inj (hfo.symm.trans hown)
        have hr' : w.store.relationships.get id = some ⟨some leader, some follower⟩ := by
          rw [hr, ← hle, ← hfo]
        have hnamed : leaderNamed w.store (w.sessions b) p = some leader := by
          simp [leaderNamed, hf, hu.1, hfo, hle]
        simp only [hown, beq_self_eq_true, if_true, reply]
        have hsite : siteOf { w.store with relationships := w.store.relationships.delete id } w.sessions =
            { w.site with follows := fun x y => w.site.follows x y ∧ ¬ (x = follower ∧ y = leader) } := by
          refine Site.ext rfl rfl rfl rfl ?_ rfl rfl
          funext x y
          exact propext (follows_delete h.graph hr' x y)
        rw [hnamed, hsite]
        exact .inl (.unfollow hu.1 (follows_iff.mpr ⟨id, r, hr, hfo, hle⟩))
      · have hnone : leaderNamed w.store (w.sessions b) p = none := by simp [leaderNamed, hf, hu.1, hown]
        simp only [beq_iff_eq, hown, if_false, reply]
        rw [hnone]
        exact step_nothing _

theorem siteOf_invite {s : Store} (sessions : Nat → Option Nat) (i : Invitation) (n : Nat) :
    siteOf { s with invitations := s.invitations.insert i, drawn := n } sessions = { siteOf s sessions with
      invited := fun x y => (siteOf s sessions).invited x y ∨ (x = i.inviterId ∧ y = i.friendEmail) } := by
  refine Site.ext rfl rfl rfl rfl rfl ?_ rfl
  funext x y
  refine propext ⟨?_, ?_⟩
  · rintro ⟨k, j, hk, hu, he⟩
    rcases Table.get_insert_cases hk with ⟨rfl, -⟩ | hk
    · exact .inr ⟨hu.symm, he.symm⟩
    · exact .inl ⟨k, j, hk, hu, he⟩
  · rintro (⟨k, j, hk, hu, he⟩ | ⟨rfl, rfl⟩)
    · exact ⟨k, j, Table.get_insert_of_some i hk, hu, he⟩
    · exact ⟨s.invitations.next, i, Table.get_insert_self _ _, rfl, rfl⟩

/-- Nobody has an address that is not found. -/
theorem members_email_ne {email : Param}
    (hf : w.store.users.findBy env.take (fun user => user.email == email) = none) :
    ∀ id x, w.site.members id = some x → x.email ≠ email := by
  intro id x hx he
  obtain ⟨y, hy, rfl⟩ := Option.map_eq_some_iff.mp hx
  have hne := Table.findBy_none.mp hf id y hy
  simp only [beq_eq_false_iff_ne] at hne
  exact hne he

theorem invite_refines (h : AppInv w) (params : InvitationParams) :
    w.site.Step b (if params.complete then .invite params.friendEmail else .nothing)
      (siteOf (invitations.create rand env w.store (w.sessions b) (some params)).store w.sessions) := by
  rcases session_cases h b with ⟨hs, hlogin⟩ | ⟨u, user, hu⟩
  · rw [invitations.create, hlogin]
    refine step_visitor hs ?_
    intro t ht
    split at ht
    · cases ht with
      | invite hb => exact ⟨_, hb⟩
    · cases ht
  · simp only [invitations.create, requireLogin_of hu]
    cases hf : w.store.users.findBy env.take (fun user => user.email == params.friendEmail) with
    | some r =>
      obtain ⟨hk, he⟩ := Table.findBy_some (k := r.1) (a := r.2) hf
      simp only
      split
      · refine step_refused ?_
        intro t ht
        cases ht with
        | invite _ hnew =>
          exact hnew r.1 r.2.member (by simp [World.site, siteOf, hk]) (by simpa [User.member] using he)
      · exact step_nothing _
    | none =>
      have hnew := members_email_ne hf
      have hstore : (invitations.newInvitation rand w.store u params).valid = true ∧
          (fitsString params.friendName && fitsString params.friendEmail) = true ↔ params.complete = true := by
        simp [Invitation.valid, invitations.newInvitation, InvitationParams.complete]
      by_cases hc : params.complete = true
      · obtain ⟨hv, hfit⟩ := hstore.mpr hc
        have hfit' : (fitsString (invitations.newInvitation rand w.store u params).friendName &&
          fitsString (invitations.newInvitation rand w.store u params).friendEmail) = true := hfit
        simp only [hv, hfit', hc, if_true]
        have hsite := siteOf_invite w.sessions (invitations.newInvitation rand w.store u params).stored
          (w.store.drawn + 1) (s := w.store)
        split
        · rw [hsite]
          exact .inl (.invite hu.1 hnew)
        · rw [reply, hsite]
          exact .inl (.invite hu.1 hnew)
      · simp only [if_neg hc]
        split
        · next hv =>
          split
          · next hfit => exact absurd (hstore.mp ⟨hv, hfit⟩) hc
          · exact step_nothing _
        · exact step_nothing _

/-! Members. -/

theorem siteOf_members_insert {s : Store} (x : User) :
    (fun id => ((s.users.insert x).get id).map User.member) =
      Function.update (fun id => (s.users.get id).map User.member) s.users.next (some x.member) := by
  refine Function.eq_update_iff.mpr ⟨by simp, ?_⟩
  intro k hk
  rw [Table.get_insert, if_neg hk]

/-- A sign-up that goes through, and what it has checked. -/
theorem users_create_store (rand : Nat → String) (env : Env) (s : Store) (session : Option Nat) (p : UserParams)
    (stripeToken token : Param) :
    (users.create rand env s session (some p) stripeToken token).store =
      if p.complete env stripeToken && identityValid s.users none p.username p.email then
        s.signedUp rand env (.new p env.salt) token
      else s := by
  have hvalid : (NewUser.new p env.salt).valid s.users = (identityValid s.users none p.username p.email &&
    passwordValid (NewUser.new p env.salt).password) := rfl
  rw [users_create_eq, hvalid, UserParams.complete]
  by_cases hid : identityValid s.users none p.username p.email = true
  · by_cases hpw : passwordValid (NewUser.new p env.salt).password = true
    · by_cases hch : (signupCharge env stripeToken).successful = true
      · by_cases hf : (NewUser.new p env.salt).fits = true
        · simp only [hid, hpw, hch, hf, Bool.and_self, if_true]
          split <;> rfl
        · simp [hid, hpw, hch, hf, reply]
      · simp [hid, hpw, hch, reply]
    · simp [hid, hpw, reply]
  · simp [hid, reply]

theorem free_iff (env : Env) {s : Store} (sessions : Nat → Option Nat) {p : UserParams}
    (hf : fitsString p.username = true ∧ fitsString p.email = true) :
    (siteOf s sessions).Free (p.member env) ↔ identityValid s.users none p.username p.email = true := by
  rw [identityValid_iff, taken_eq_false, taken_eq_false, ← blank_truncated hf.1, ← blank_truncated hf.2]
  have hall : ∀ column : User → Option String, ∀ value : Option String,
      (∀ k x, s.users.get k = some x → some k ≠ none → column x ≠ value) ↔
        ∀ k x, s.users.get k = some x → column x ≠ value :=
    fun column value => ⟨fun h k x hk => h k x hk (by simp), fun h k x hk _ => h k x hk⟩
  rw [hall, hall]
  have hmem : ∀ {k x}, (siteOf s sessions).members k = some x ↔ ∃ y, s.users.get k = some y ∧ y.member = x :=
    fun {k x} => Option.map_eq_some_iff
  refine ⟨?_, ?_⟩
  · intro h
    exact ⟨⟨h.username, fun k x hk => h.newUsername k x.member (hmem.mpr ⟨x, hk, rfl⟩)⟩,
      ⟨h.email, fun k x hk => h.newEmail k x.member (hmem.mpr ⟨x, hk, rfl⟩)⟩⟩
  · rintro ⟨⟨hu, hnu⟩, he, hne⟩
    refine ⟨hu, he, ?_, ?_⟩
    · intro k x hx
      obtain ⟨y, hy, rfl⟩ := hmem.mp hx
      exact hnu k y hy
    · intro k x hx
      obtain ⟨y, hy, rfl⟩ := hmem.mp hx
      exact hne k y hy

theorem does_join (rand : Nat → String) (h : AppInv w) {p : UserParams} (hfree : w.site.Free (p.member env)) (token : Param) :
    w.site.Does b (.join (p.member env) ((findInvitation env w.store token).map (fun r => r.2.inviterId)))
      (siteOf (w.store.signedUp rand env (.new p env.salt) token) w.sessions) := by
  have hfresh : w.site.members w.store.users.next = none := by
    simp [World.site, siteOf, Table.get_next]
  cases hf : findInvitation env w.store token with
  | none =>
    have hsite : siteOf (w.store.signedUp rand env (.new p env.salt) token) w.sessions =
        { w.site with members := Function.update w.site.members w.store.users.next (some (p.member env)) } := by
      have hs : w.store.signedUp rand env (.new p env.salt) token = w.store.addUser rand (.new p env.salt) := by
        simp only [Store.signedUp, hf]
      rw [hs]
      exact Site.ext (siteOf_members_insert _) rfl rfl rfl rfl rfl rfl
    rw [hsite]
    exact .join hfresh hfree
  | some r =>
    obtain ⟨hk, -⟩ := Table.findBy_some (k := r.1) (a := r.2) hf
    have hs := h.inviters r.1 r.2 hk
    have hsite : siteOf (w.store.signedUp rand env (.new p env.salt) token) w.sessions =
        { w.site with
          members := Function.update w.site.members w.store.users.next (some (p.member env))
          follows := fun x y => w.site.follows x y ∨ (x = w.store.users.next ∧ y = r.2.inviterId) ∨
            (x = r.2.inviterId ∧ y = w.store.users.next) } := by
      rw [signedUp_link _ hf hs]
      refine Site.ext (siteOf_members_insert _) rfl rfl rfl ?_ rfl rfl
      funext x y
      refine propext ?_
      have h1 := follows_insert (w.store.addUser rand (.new p env.salt)) x y r.2.inviterId w.store.users.next
      have h2 := follows_insert
        { w.store.addUser rand (.new p env.salt) with
          relationships := w.store.relationships.insert ⟨some r.2.inviterId, some w.store.users.next⟩ }
        x y w.store.users.next r.2.inviterId
      exact h2.trans ((or_congr h1 Iff.rfl).trans or_assoc)
    rw [hsite]
    exact .joinInvited hfresh hfree ⟨r.1, r.2, hk, rfl, rfl⟩

theorem join_refines (h : AppInv w) (p : UserParams) (stripeToken token : Param) :
    w.site.Step b
      (if p.complete env stripeToken then
        .join (p.member env)
          ((findInvitation env w.store token).map (fun r => r.2.inviterId))
        else .nothing)
      (siteOf (users.create rand env w.store (w.sessions b) (some p) stripeToken token).store w.sessions) := by
  rw [users_create_store]
  by_cases hc : p.complete env stripeToken = true
  · have hfit : fitsString p.username = true ∧ fitsString p.email = true := by
      simp only [UserParams.complete, Bool.and_eq_true] at hc
      exact NewUser.fits_iff.mp hc.2
    have hfree := free_iff env (s := w.store) w.sessions hfit
    by_cases hid : identityValid w.store.users none p.username p.email = true
    · simp only [hc, hid, Bool.and_self, if_true]
      exact .inl (does_join rand h (hfree.mpr hid) token)
    · simp only [hc, hid, Bool.true_and, if_true]
      refine step_refused ?_
      intro t ht
      have hm : w.site.Free (p.member env) := by
        cases hi : findInvitation env w.store token with
        | none =>
          rw [hi] at ht
          cases ht with
          | join _ hf => exact hf
        | some r =>
          rw [hi] at ht
          cases ht with
          | joinInvited _ hf => exact hf
      exact hid (hfree.mp hm)
  · simp only [hc, Bool.false_and]
    exact step_nothing _

theorem reset_refines (h : AppInv w) (token password : Param) :
    w.site.Step b
      (.of (w.store.users.findBy env.take (fun user => user.token == token))
        (fun r => .resetPassword r.1 (setPassword env.salt r.2.passwordDigest password)))
      (siteOf (passwordResets.create rand env w.store (w.sessions b) token password).store w.sessions) := by
  simp only [passwordResets.create]
  cases hf : w.store.users.findBy env.take (fun user => user.token == token) with
  | none => exact step_nothing _
  | some r =>
    obtain ⟨id, x⟩ := r
    obtain ⟨hid, -⟩ := Table.findBy_some hf
    have hsite : siteOf (passwordResets.reset rand env w.store id x password) w.sessions = { w.site with
        members := Function.update w.site.members id
          (some { x.member with password := setPassword env.salt x.passwordDigest password }) } := by
      refine Site.ext (Function.eq_update_iff.mpr ⟨?_, ?_⟩) ?_ ?_ ?_ ?_ ?_ rfl
      · simp [siteOf, h.accounts.reset_users rand env hid, hid, User.member]
      · intro k hk
        simp [siteOf, World.site, h.accounts.reset_users rand env hid, Table.get_update_ne _ hk]
      · simp [siteOf, World.site]
      · funext u
        simp [siteOf, World.site, Store.queueList, Store.listing, Store.queueOf]
      · funext u v
        simp [siteOf, World.site, Store.reviewOf]
      · funext u v
        simp [siteOf, World.site, follows]
      · funext u v
        simp [siteOf, World.site]
    simp only [reply]
    rw [hsite]
    exact .inl (.resetPassword (by simp [World.site, siteOf, hid]))

theorem publish_refines (h : AppInv w) (p : VideoParams) :
    w.site.Step b (if p.complete env then .publish (adminVideos.newVideo env p).stored else .nothing)
      (siteOf (adminVideos.create env w.store (w.sessions b) (some p)).store w.sessions) := by
  rcases session_cases h b with ⟨hs, hlogin⟩ | ⟨u, user, hu⟩
  · rw [adminVideos.create, adminVideos.requireAdmin, hlogin]
    refine step_visitor hs ?_
    intro t ht
    split at ht
    · cases ht with
      | publish hb => exact ⟨_, hb⟩
    · cases ht
  · simp only [adminVideos.create, adminVideos.requireAdmin, requireLogin_of hu]
    have hm : w.site.members u = some user.member := by simp [World.site, siteOf, hu.2]
    by_cases ha : user.admin = some true
    · simp only [ha, beq_self_eq_true, if_true]
      have hstore : ((adminVideos.newVideo env p).valid && env.uploads) = true ∧
          (fitsString (adminVideos.newVideo env p).title && fitsString (adminVideos.newVideo env p).videoUrl &&
            fitsColumn (adminVideos.newVideo env p).categoryId) = true ↔ p.complete env = true := by
        simp only [VideoParams.complete, Bool.and_eq_true]
        exact Iff.rfl
      by_cases hc : p.complete env = true
      · obtain ⟨hv, hfit⟩ := hstore.mpr hc
        simp only [hv, hfit, hc, if_true, reply]
        have hsite : siteOf { w.store with videos := w.store.videos.insert (adminVideos.newVideo env p).stored }
            w.sessions = { w.site with
              videos := Function.update w.site.videos w.store.videos.next (some (adminVideos.newVideo env p).stored) } := by
          refine Site.ext rfl (Function.eq_update_iff.mpr ⟨?_, ?_⟩) rfl rfl rfl rfl rfl
          · simp [siteOf]
          · intro k hk
            simp [siteOf, World.site, Table.get_insert, hk]
        rw [hsite]
        exact .inl (.publish hu.1 hm (by simp [User.member, ha]) (Table.get_next _))
      · rw [if_neg hc]
        split
        · next hv =>
          split
          · next hfit => exact absurd (hstore.mp ⟨hv, hfit⟩) hc
          · exact step_nothing _
        · exact step_nothing _
    · simp only [beq_iff_eq, ha, if_false]
      split
      · refine step_refused ?_
        intro t ht
        cases ht with
        | publish hb hm' hadmin =>
          obtain rfl := Option.some.inj (hu.1.symm.trans hb)
          obtain rfl := Option.some.inj (hm.symm.trans hm')
          exact ha (by simpa [User.member] using hadmin)
      · exact step_nothing _

theorem knows_iff {x : User} {password : Param} : x.member.knows password ↔ x.authenticate password = .ok true := by
  simp only [Member.knows, User.member, User.authenticate]
  cases x.passwordDigest with
  | none => simp
  | some d => simp

theorem logIn_refines (h : AppInv w) (email password : Param) :
    w.site.Step b (.logIn email password)
      (siteOf (sessions.create env w.store (w.sessions b) email password).store
        (Function.update w.sessions b (sessions.create env w.store (w.sessions b) email password).session)) := by
  have hkeep : siteOf w.store (Function.update w.sessions b (w.sessions b)) = w.site := by
    rw [Function.update_eq_self]
    rfl
  simp only [sessions.create]
  cases hf : w.store.users.findBy env.take (fun user => user.email == email) with
  | none =>
    simp only [reply]
    rw [hkeep]
    refine step_refused ?_
    intro t ht
    cases ht with
    | logIn hid he _ => exact members_email_ne hf _ _ hid he
  | some r =>
    obtain ⟨id, x⟩ := r
    obtain ⟨hid, hmail⟩ := Table.findBy_some hf
    have hmail : x.email = email := by simpa using hmail
    simp only
    cases ha : x.authenticate password with
    | error e =>
      obtain ⟨d, hd, -⟩ := h.secrets id x hid
      simp [User.authenticate, hd] at ha
    | ok ok =>
      cases ok with
      | true => exact .inl (.logIn (by simp [World.site, siteOf, hid]) hmail (knows_iff.mpr ha))
      | false =>
        simp only [reply]
        rw [hkeep]
        refine step_refused ?_
        intro t ht
        cases ht with
        | logIn hid' he hk =>
          obtain ⟨y, hy, rfl⟩ := Option.map_eq_some_iff.mp hid'
          have hsame := h.accounts.emails _ _ y x hy hid (he.trans hmail.symm)
          subst hsame
          obtain rfl := Option.some.inj (hid.symm.trans hy)
          rw [knows_iff, ha] at hk
          cases hk

/-! One request. -/

/-- Neither a login nor a logout. -/
def Request.keepsSession : Request → Bool
  | .sessionsCreate _ _ | .sessionsDestroy => false
  | _ => true

theorem session_of_keepsSession {e : Event} (hk : e.request.keepsSession = true) :
    (w.outcome rand e).session = w.sessions e.sid := by
  rcases handle_session rand e.env w.store (w.sessions e.sid) e.request with hs | hs | ⟨email, password, hs⟩
  · exact hs
  · rw [hs] at hk
    cases hk
  · rw [hs] at hk
    cases hk

theorem site_of_store {e : Event} (hk : e.request.keepsSession = true) :
    (w.step rand e).site = siteOf (w.outcome rand e).store w.sessions := by
  rw [World.site, World.step, session_of_keepsSession hk, Function.update_eq_self]

/-- The requests that write nothing, whatever happens. -/
def Request.quiet : Request → Bool
  | .queueItemsCreate _ | .queueItemsDestroy _ | .queueItemsUpdateQueue (some _) | .reviewsCreate _ (some _)
  | .relationshipsCreate _ | .relationshipsDestroy _ | .invitationsCreate (some _) | .usersCreate (some _) _ _
  | .passwordResetsCreate _ _ | .adminVideosCreate (some _) => false
  | _ => true

theorem Effect.of_quiet {session : Option Nat} {s s' : Store} {req : Request}
    (he : Effect rand env session s req s') (hq : req.quiet = true) : s' = s := by
  cases he with
  | nothing => rfl
  | enqueue | dequeue | tidy | reorder | review | follow | unfollow | invite | signUp | reset | addVideo => cases hq

theorem step_quiet {e : Event} (hk : e.request.keepsSession = true) (hq : e.request.quiet = true) :
    w.site.Step e.sid .nothing (w.step rand e).site := by
  rw [site_of_store hk, show (w.outcome rand e).store = w.store from (step_effect rand w e).of_quiet hq]
  exact step_nothing _

theorem step_stored {e : Event} {a : Action} (hk : e.request.keepsSession = true)
    (h : w.site.Step e.sid a (siteOf (w.outcome rand e).store w.sessions)) :
    w.site.Step e.sid a (w.step rand e).site := by
  rw [site_of_store hk]
  exact h

/-- **One request is one step of the site.** -/
theorem step_refines (rand : Nat → String) (h : AppInv w) (e : Event) :
    ∃ a, Means w e a ∧ w.site.Step e.sid a (w.step rand e).site := by
  obtain ⟨sid, req, env⟩ := e
  cases req with
  | queueItemsCreate p => exact ⟨_, rfl, step_stored rfl (enqueue_refines h p)⟩
  | queueItemsDestroy p => exact ⟨_, rfl, step_stored rfl (dequeue_refines h p)⟩
  | queueItemsUpdateQueue params =>
    cases params with
    | none => exact ⟨_, rfl, step_quiet rfl rfl⟩
    | some entries =>
      obtain ⟨a, ha, hs⟩ := arrange_refines env sid h entries
      exact ⟨a, ha, step_stored rfl hs⟩
  | reviewsCreate p review =>
    cases review with
    | none => exact ⟨_, rfl, step_quiet rfl rfl⟩
    | some params => exact ⟨_, rfl, step_stored rfl (review_refines h p params)⟩
  | relationshipsCreate p => exact ⟨_, rfl, step_stored rfl (follow_refines h p)⟩
  | relationshipsDestroy p => exact ⟨_, rfl, step_stored rfl (unfollow_refines h p)⟩
  | invitationsCreate invitation =>
    cases invitation with
    | none => exact ⟨_, rfl, step_quiet rfl rfl⟩
    | some params => exact ⟨_, rfl, step_stored rfl (invite_refines h params)⟩
  | usersCreate user stripeToken token =>
    cases user with
    | none => exact ⟨_, rfl, step_quiet rfl rfl⟩
    | some params => exact ⟨_, rfl, step_stored rfl (join_refines h params stripeToken token)⟩
  | passwordResetsCreate token password => exact ⟨_, rfl, step_stored rfl (reset_refines h token password)⟩
  | adminVideosCreate video =>
    cases video with
    | none => exact ⟨_, rfl, step_quiet rfl rfl⟩
    | some params => exact ⟨_, rfl, step_stored rfl (publish_refines h params)⟩
  | sessionsCreate email password => exact ⟨_, rfl, logIn_refines h email password⟩
  | sessionsDestroy => exact ⟨_, rfl, .inl .logOut⟩
  | root | ui | videosIndex | videosShow _ | videosSearch _ | categoriesShow _ | adminVideosNew | queueItemsIndex
  | usersNew _ | usersShow _ | relationshipsIndex | sessionsNew | forgotPasswordsNew | forgotPasswordsCreate _
  | forgotPasswordsConfirm | passwordResetsShow _ | passwordResetsExpiredToken | invitationsNew =>
    exact ⟨_, rfl, step_quiet rfl rfl⟩

end

/-! Runs. -/

/-- Nobody is there who could have said or listed anything. -/
theorem World.New.sound {w : World} (h : w.New) : w.site.Sound := by
  have hmembers : ∀ id x, w.site.members id ≠ some x := by
    intro id x
    simp [World.site, siteOf, Table.get_of_no_rows h.users]
  have hqueue : ∀ u, w.site.queue u = [] := by
    intro u
    have he : w.store.queueOf u = [] :=
      Table.select_eq_nil.mpr (fun k q hk => absurd hk (Table.not_get_of_no_rows h.queueItems))
    rw [List.eq_nil_iff_forall_not_mem]
    intro v hv
    obtain ⟨r, hr, -⟩ := mem_site_queue.mp hv
    rw [he] at hr
    cases hr
  refine ⟨?_, ?_, ?_, ?_, ?_, fun a b x y hx => absurd hx (hmembers a x), fun a b x y hx => absurd hx (hmembers a x), ?_⟩
  · intro u
    rw [hqueue u]
    exact List.nodup_nil
  · intro u v hv
    rw [hqueue u] at hv
    cases hv
  · intro u v ho
    have hnone : w.site.opinion u v = none :=
      site_opinion_none.mpr (reviewOf_none.mpr (fun k r hk => absurd hk (Table.not_get_of_no_rows h.reviews)))
    rw [hnone] at ho
    cases ho
  · intro u v hf
    obtain ⟨k, r, hk, -⟩ := follows_iff.mp hf
    exact absurd hk (Table.not_get_of_no_rows h.relationships)
  · rintro u email ⟨k, i, hk, -⟩
    exact absurd hk (Table.not_get_of_no_rows h.invitations)
  · intro b u hb
    exact absurd ((h.sessions b).symm.trans hb) (by simp)

/-- **The application refines the site.** From a new installation, whatever requests are made by
    whichever browsers: every request does what it means on the site, exactly when the site can
    do it, and otherwise leaves the site as it is. So the site is sound after every run. -/
theorem app_refines_site (rand : Nat → String) (w₀ : World) (h₀ : w₀.New) (es : List Event) :
    Along (World.step rand)
      (fun w e => ∃ a, Means w e a ∧ w.site.Step e.sid a (w.step rand e).site) w₀ es ∧
    (run (World.step rand) w₀ es).site.Sound := by
  refine ⟨?_, ?_⟩
  · intro pre e post _
    exact step_refines rand (h₀.appInv.run pre) e
  · have hstep : ∀ w e, AppInv w ∧ w.site.Sound → AppInv (w.step rand e) ∧ (w.step rand e).site.Sound := by
      rintro w e ⟨hw, hs⟩
      obtain ⟨a, -, ha⟩ := step_refines rand hw e
      exact ⟨hw.step e, hs.step ha⟩
    exact (run_inv (I := fun w => AppInv w ∧ w.site.Sound) hstep ⟨h₀.appInv, h₀.sound⟩ es).2

theorem app_refines_site_small :
    let w := run (World.step tally) World.stocked collecting
    w.site.queue 1 = [1] ∧ w.site.Sound ∧
      ∃ a, Means w (Event.fair 1 (.queueItemsCreate (some "2"))) a ∧
        w.site.Step 1 a (w.step tally (Event.fair 1 (.queueItemsCreate (some "2")))).site := by
  intro w
  refine ⟨by decide, (app_refines_site tally World.stocked stocked_new collecting).2, ?_⟩
  exact (app_refines_site tally World.stocked stocked_new
    (collecting ++ [Event.fair 1 (.queueItemsCreate (some "2"))])).1 collecting _ [] rfl

end Myflix
