import Myflix.Lib.Serial
import Myflix.Mailing

/- Requests that overlap, of all those that write once: reviewing, following,
   unfollowing, adding to the queue, inviting and resetting a password. Production
   runs several workers and none of these actions takes a lock, so each database
   statement of a request is one step of `advance`, in the order of the source, and
   between two steps of one request the others may take any of theirs. A request
   reads until it has decided, and its last step writes; what it has read may be
   out of date by then, and `undisturbed` says that it is not.

   The statements that read a row once more which no request can take away (the
   user of each review, the video of a new item) are left out. SecureRandom is
   asked in the step that writes its value. -/
namespace Myflix
open Relational Rails Transition Interleaving

namespace Overlapping

/-! Requests. -/

inductive Job where
  | review (videoId : Param) (params : Option ReviewParams)
  | follow (leaderId : Param)
  | unfollow (id : Param)
  | enqueue (videoId : Param)
  | invite (invitation : Option InvitationParams)
  | reset (token password : Param)
  deriving DecidableEq, Repr

def Job.request : Job → Request
  | .review videoId params => .reviewsCreate videoId params
  | .follow leaderId => .relationshipsCreate leaderId
  | .unfollow id => .relationshipsDestroy id
  | .enqueue videoId => .queueItemsCreate videoId
  | .invite invitation => .invitationsCreate invitation
  | .reset token password => .passwordResetsCreate token password

/-- How far a request has come, with what it holds in memory: `u` is the current user. -/
inductive Phase where
  | loading (job : Job)
  | findingVideo (u : Nat) (videoId : Param) (review : Option ReviewParams)
  | readingReviews (u v : Nat) (params : ReviewParams)
  | insertingReview (u v : Nat) (params : ReviewParams)
  | findingLeader (u : Nat) (leaderId : Param)
  | readingFollowed (u leader : Nat)
  | insertingFollow (u leader : Nat)
  | findingFollow (u : Nat) (id : Param)
  | deletingFollow (id : Nat)
  | checkingVideo (u : Nat) (videoId : Param)
  | readingQueue (u : Nat) (videoId : Param)
  | countingQueue (u : Nat) (videoId : Param)
  | insertingItem (u : Nat) (videoId : Param) (count : Nat)
  | findingEmail (u : Nat) (params : InvitationParams)
  | insertingInvitation (u : Nat) (params : InvitationParams)
  | findingToken (token password : Param)
  | validating (id : Nat) (user : User) (password : Param)
  | updatingUser (id : Nat) (user : User) (password : Param)
  | finished (response : Response)
  deriving DecidableEq, Repr

def Phase.isFinished : Phase → Bool
  | .finished _ => true
  | _ => false

/-- The first statement of an action once the user is loaded. -/
def Job.action (u : Nat) : Job → Phase
  | .review videoId params => .findingVideo u videoId params
  | .follow leaderId => .findingLeader u leaderId
  | .unfollow id => .findingFollow u id
  | .enqueue videoId => .checkingVideo u videoId
  | .invite none => .finished (raised .parameterMissing)
  | .invite (some params) => .findingEmail u params
  | .reset token password => .findingToken token password

/-- The first statement of a request. Resetting a password skips `require_login`. -/
def Job.start : Job → Phase
  | .reset token password => .findingToken token password
  | job => .loading job

/-- One database statement of request `i`, which comes with the cookie `session i`. -/
def advance {ι : Type} (rand : Nat → String) (session : ι → Option Nat) (i : ι) (env : Env) (s : Store) :
    Phase → Store × Phase
  | .loading job =>
    match currentUser s (session i) with
    | .error e => (s, .finished (raised e))
    | .ok none => (s, .finished (redirectTo .root none))
    | .ok (some (u, _)) => (s, job.action u)
  | .findingVideo u videoId review =>
    match find s.videos videoId, review with
    | none, _ => (s, .finished (raised .recordNotFound))
    | some _, none => (s, .finished (raised .parameterMissing))
    | some (v, _), some params => (s, .readingReviews u v params)
  | .readingReviews u v params =>
    if reviews.alreadyReviewed s u v then
      (s, .finished (render (.videosShow v) (some (.danger (some "You can only review a video once.")))))
    else if ratingValid params.rating then (s, .insertingReview u v params)
    else (s, .finished (render (.videosShow v) (some (.danger (some "Review must have a rating.")))))
  | .insertingReview u v params =>
    (createReview s u v params.rating params.content,
      .finished (redirectTo (.video v) (some (.success "Thanks for your review."))))
  | .findingLeader u leaderId =>
    match find s.users leaderId with
    | none => (s, .finished (raised .recordNotFound))
    | some (leader, _) => (s, .readingFollowed u leader)
  | .readingFollowed u leader =>
    if canFollow s u leader then (s, .insertingFollow u leader) else (s, .finished (redirectTo .people none))
  | .insertingFollow u leader =>
    ({ s with relationships := s.relationships.insert { leaderId := some leader, followerId := some u } },
      .finished (redirectTo .people none))
  | .findingFollow u id =>
    match find s.relationships id with
    | none => (s, .finished (raised .recordNotFound))
    | some (id, r) =>
      if r.followerId == some u then (s, .deletingFollow id) else (s, .finished (redirectTo .people none))
  | .deletingFollow id =>
    ({ s with relationships := s.relationships.delete id }, .finished (redirectTo .people none))
  | .checkingVideo u videoId =>
    if queueItems.videoDoesntExist s videoId then
      (s, .finished (redirectTo .myQueue (some (.danger (some "Sorry we couldn't add that video.")))))
    else (s, .readingQueue u videoId)
  | .readingQueue u videoId =>
    if queueItems.videoAlreadyInUsersQueue s u videoId then
      (s, .finished (redirectTo .myQueue (some (.danger (some "Sorry we couldn't add that video.")))))
    else (s, .countingQueue u videoId)
  | .countingQueue u videoId => (s, .insertingItem u videoId (s.queueOf u).length)
  | .insertingItem u videoId count =>
    let item : QueueItem := { userId := u, videoId := videoId.toI.toNat, ranking := (count : Int) + 1 }
    ({ s with queueItems := s.queueItems.insert item },
      .finished (redirectTo .myQueue (some (.success "Video added to queue."))))
  | .findingEmail u params =>
    match s.users.findBy env.take (fun user => user.email == params.friendEmail) with
    | some _ =>
      (s, .finished
        (redirectTo .newInvitation (some (.danger (some "This email address is already registered.")))))
    | none =>
      if (invitations.newInvitation rand s u params).valid then (s, .insertingInvitation u params)
      else (s, .finished (render .invitationsNew
        (some (.danger (some "Sorry invitation could not be sent. Please try again")))))
  | .insertingInvitation u params =>
    let i := invitations.newInvitation rand s u params
    if fitsString i.friendName && fitsString i.friendEmail then
      ({ s with invitations := s.invitations.insert i.stored, drawn := s.drawn + 1 }, .finished
        (if env.delivers then
          ⟨.redirectTo .newInvitation, some (.success "Invitation sent!"), some (.sendInvitation i.friendEmail i.token)⟩
        else raised .deliveryError))
    else (s, .finished (raised .statementInvalid))
  | .findingToken token password =>
    match s.users.findBy env.take (fun user => user.token == token) with
    | some (id, user) => (s, .validating id user password)
    | none => (s, .finished (redirectTo .expiredToken none))
  | .validating id user password =>
    if identityValid s.users (some id) user.username user.email then (s, .updatingUser id user password)
    else ({ s with drawn := s.drawn + 1 },
      .finished (redirectTo .login (some (.success "Password has been updated."))))
  -- the digest is written only when `password=` has changed it
  | .updatingUser id _ password =>
    ({ s with
        users := s.users.update id (fun x => { x with
          passwordDigest := setPassword env.salt x.passwordDigest password
          token := generateToken rand s })
        drawn := s.drawn + 1 },
      .finished (redirectTo .login (some (.success "Password has been updated."))))
  | .finished response => (s, .finished response)

/-- What the write of a request rests on still holds. -/
def undisturbed (s : Store) : Phase → Bool
  | .insertingReview u v _ => !reviews.alreadyReviewed s u v
  | .insertingFollow u leader => !follows s u leader
  | .insertingItem u videoId count =>
    !queueItems.videoAlreadyInUsersQueue s u videoId && (s.queueOf u).length == count
  | .updatingUser id user _ => (s.users.get id).any (fun x => x.token == user.token)
  | _ => true

/-- The requests that are under way. -/
abbrev Requests (ι : Type) := Pool ι Store Phase

/-- Nobody has started. -/
def Requests.start {ι : Type} (s : Store) (job : ι → Job) : Requests ι := ⟨s, fun i => (job i).start⟩

/-- The request is up to date in what it writes. -/
def Undisturbed {ι : Type} (c : Requests ι) (turn : ι × Env) : Prop :=
  undisturbed c.shared (c.phase turn.1) = true

instance {ι : Type} (c : Requests ι) (turn : ι × Env) : Decidable (Undisturbed c turn) :=
  inferInstanceAs (Decidable (_ = true))

/-! What a step can do to the store. -/

/-- The rows others rely on stay: no user comes or goes or changes name or email, the videos are the
    same, and a relationship under an old key is the one it was. -/
structure Grows (s s' : Store) : Prop where
  users : ∀ k, (s'.users.get k).map (fun x => (x.username, x.email)) =
    (s.users.get k).map (fun x => (x.username, x.email))
  videos : s'.videos = s.videos
  next : s.relationships.next ≤ s'.relationships.next
  relationships : ∀ k r, s'.relationships.get k = some r →
    s.relationships.get k = some r ∨ s.relationships.next ≤ k

section
variable {ι : Type} {rand : Nat → String} {session : ι → Option Nat} {i : ι} {env : Env} {s s' : Store} {p : Phase}

theorem Grows.refl (s : Store) : Grows s s := ⟨fun _ => rfl, rfl, Nat.le_refl _, fun _ _ h => .inl h⟩

/-- A write to the other tables. -/
theorem grows_of_eq (hu : s'.users = s.users) (hv : s'.videos = s.videos)
    (hr : s'.relationships = s.relationships) : Grows s s' := by
  refine ⟨fun k => by rw [hu], hv, by rw [hr], ?_⟩
  intro k r h
  rw [hr] at h
  exact .inl h

theorem Grows.isSome (h : Grows s s') {k : Nat} (hk : (s.users.get k).isSome) : (s'.users.get k).isSome := by
  have := congrArg Option.isSome (h.users k)
  simp only [Option.isSome_map] at this
  rw [this]
  exact hk

/-- The user under a key has the name and the email of before. -/
theorem Grows.user (h : Grows s s') {k : Nat} {x : User} (hk : s'.users.get k = some x) :
    ∃ y, s.users.get k = some y ∧ y.username = x.username ∧ y.email = x.email := by
  have := h.users k
  rw [hk, Option.map_some] at this
  obtain ⟨y, hy, he⟩ := Option.map_eq_some_iff.mp this.symm
  simp only [Prod.mk.injEq] at he
  exact ⟨y, hy, he⟩

theorem advance_grows : Grows s (advance rand session i env s p).1 := by
  cases p with
  | loading _ | findingVideo _ _ _ | findingLeader _ _ | readingFollowed _ _ | checkingVideo _ _
  | readingQueue _ _ | findingToken _ _ =>
    simp only [advance]
    split <;> exact Grows.refl s
  | readingReviews _ _ _ | findingFollow _ _ | findingEmail _ _ =>
    simp only [advance]
    split
    · exact Grows.refl s
    · split <;> exact Grows.refl s
  | countingQueue _ _ | finished _ => exact Grows.refl s
  | insertingReview u v params =>
    obtain ⟨reviews, hs⟩ := createReview_frame s u v params.rating params.content
    show Grows s (createReview s u v params.rating params.content)
    rw [hs]
    exact grows_of_eq rfl rfl rfl
  | insertingFollow u leader =>
    refine ⟨fun _ => rfl, rfl, Nat.le_succ _, ?_⟩
    intro k r h
    rcases Table.get_insert_cases h with ⟨-, rfl⟩ | h
    · exact .inr (Nat.le_refl _)
    · exact .inl h
  | deletingFollow id =>
    exact ⟨fun _ => rfl, rfl, Nat.le_refl _, fun k r h => .inl (Table.get_of_get_delete h)⟩
  | insertingItem u videoId count => exact grows_of_eq rfl rfl rfl
  | insertingInvitation u params =>
    simp only [advance]
    split
    · exact grows_of_eq rfl rfl rfl
    · exact Grows.refl s
  | validating id user password =>
    simp only [advance]
    split
    · exact Grows.refl s
    · exact grows_of_eq rfl rfl rfl
  | updatingUser id user password =>
    refine ⟨?_, rfl, Nat.le_refl _, fun _ _ h => .inl h⟩
    intro k
    show ((s.users.update id _).get k).map _ = _
    rw [Table.get_update]
    split
    · rw [Option.map_map]
      rfl
    · rfl

/-- Only the last step of a reset touches the users. -/
theorem advance_users :
    (advance rand session i env s p).1.users = s.users ∨
      ∃ id user password, p = .updatingUser id user password := by
  cases p with
  | updatingUser id user password => exact .inr ⟨id, user, password, rfl⟩
  | insertingReview u v params =>
    obtain ⟨reviews, hs⟩ := createReview_frame s u v params.rating params.content
    refine .inl ?_
    show (createReview s u v params.rating params.content).users = s.users
    rw [hs]
  | insertingFollow _ _ | deletingFollow _ | insertingItem _ _ _ | countingQueue _ _ | finished _ => exact .inl rfl
  | loading _ | findingVideo _ _ _ | findingLeader _ _ | readingFollowed _ _ | checkingVideo _ _
  | readingQueue _ _ | findingToken _ _ | insertingInvitation _ _ | validating _ _ _ =>
    refine .inl ?_
    simp only [advance]
    split <;> rfl
  | readingReviews _ _ _ | findingFollow _ _ | findingEmail _ _ =>
    refine .inl ?_
    simp only [advance]
    split
    · rfl
    · split <;> rfl

/-- Where a user in memory comes from. -/
theorem advance_found {id : Nat} {user : User} {password : Param}
    (h : (advance rand session i env s p).2 = .validating id user password ∨
      (advance rand session i env s p).2 = .updatingUser id user password) :
    (s.users.get id = some user ∧ p = .findingToken user.token password) ∨ p = .validating id user password := by
  cases p with
  | findingToken token q =>
    simp only [advance] at h
    split at h
    · next k x hf =>
      obtain ⟨hx, ht⟩ := Table.findBy_some hf
      obtain ⟨rfl, rfl, rfl⟩ : k = id ∧ x = user ∧ q = password := by simpa using h
      exact .inl ⟨hx, by rw [show x.token = token by simpa using ht]⟩
    · simp at h
  | validating k x q =>
    simp only [advance] at h
    split at h
    · obtain ⟨rfl, rfl, rfl⟩ : k = id ∧ x = user ∧ q = password := by simpa using h
      exact .inr rfl
    · simp at h
  | loading j =>
    simp only [advance] at h
    split at h
    · simp at h
    · simp at h
    · cases j with
      | invite params => cases params <;> simp [Job.action] at h
      | review _ _ | follow _ | unfollow _ | enqueue _ | reset _ _ => simp [Job.action] at h
  | findingVideo _ _ _ | findingLeader _ _ | readingFollowed _ _ | checkingVideo _ _ | readingQueue _ _
  | insertingInvitation _ _ =>
    simp only [advance] at h
    split at h <;> simp at h
  | readingReviews _ _ _ | findingFollow _ _ | findingEmail _ _ =>
    simp only [advance] at h
    split at h
    · simp at h
    · split at h <;> simp at h
  | insertingReview _ _ _ | insertingFollow _ _ | deletingFollow _ | countingQueue _ _ | insertingItem _ _ _
  | updatingUser _ _ _ | finished _ => simp [advance] at h

end

/-! What a request knows. -/

section
variable {ι : Type} (session : ι → Option Nat) (job : ι → Job)

/-- The request's session belongs to a stored user. -/
def Acts (s : Store) (i : ι) (u : Nat) : Prop := session i = some u ∧ (s.users.get u).isSome

/-- What has been read and cannot have changed: who acts, that the rows named by the parameters are
    there, and that a parameter that was checked has passed. -/
def Knows (rand : Nat → String) (s : Store) (i : ι) : Phase → Prop
  | .loading j => job i = j ∧ ∀ token password, j ≠ .reset token password
  | .findingVideo u videoId params => Acts session s i u ∧ job i = .review videoId params
  | .readingReviews u v params => Acts session s i u ∧ ∃ videoId, job i = .review videoId (some params) ∧
      (find s.videos videoId).map Prod.fst = some v
  | .insertingReview u v params => Acts session s i u ∧ ratingValid params.rating = true ∧
      ∃ videoId, job i = .review videoId (some params) ∧ (find s.videos videoId).map Prod.fst = some v
  | .findingLeader u leaderId => Acts session s i u ∧ job i = .follow leaderId
  | .readingFollowed u leader => Acts session s i u ∧ ∃ leaderId, job i = .follow leaderId ∧
      Param.key leaderId = some leader ∧ (s.users.get leader).isSome
  | .insertingFollow u leader => Acts session s i u ∧ u ≠ leader ∧ ∃ leaderId, job i = .follow leaderId ∧
      Param.key leaderId = some leader ∧ (s.users.get leader).isSome
  | .findingFollow u id => Acts session s i u ∧ job i = .unfollow id
  | .deletingFollow k => ∃ u id, Acts session s i u ∧ job i = .unfollow id ∧ Param.key id = some k ∧
      k < s.relationships.next ∧ ∀ r, s.relationships.get k = some r → r.followerId = some u
  | .checkingVideo u videoId => Acts session s i u ∧ job i = .enqueue videoId
  | .readingQueue u videoId | .countingQueue u videoId | .insertingItem u videoId _ =>
      Acts session s i u ∧ job i = .enqueue videoId ∧ queueItems.videoDoesntExist s videoId = false
  | .findingEmail u params => Acts session s i u ∧ job i = .invite (some params)
  | .insertingInvitation u params => Acts session s i u ∧ job i = .invite (some params) ∧
      (invitations.newInvitation rand s u params).valid = true ∧
      ∀ k x, s.users.get k = some x → x.email ≠ params.friendEmail
  | .findingToken token password => job i = .reset token password
  | .validating id user password | .updatingUser id user password => job i = .reset user.token password ∧
      ∃ x, s.users.get id = some x ∧ x.username = user.username ∧ x.email = user.email
  | .finished _ => True

variable {session job} {rand : Nat → String} {i : ι} {env : Env} {s s' : Store} {p : Phase}

theorem knows_start (i : ι) : Knows session job rand s i (job i).start := by
  cases hj : job i with
  | reset token password => exact hj
  | review _ _ | follow _ | unfollow _ | enqueue _ | invite _ =>
    refine ⟨hj, ?_⟩
    intro token password h
    cases h

theorem Acts.grows (h : Grows s s') {u : Nat} (ha : Acts session s i u) : Acts session s' i u :=
  ⟨ha.1, h.isSome ha.2⟩

theorem Acts.actsAs {u : Nat} (h : Acts session s i u) : ∃ user, ActsAs s (session i) u user := by
  obtain ⟨user, hu⟩ := Option.isSome_iff_exists.mp h.2
  exact ⟨user, h.1, hu⟩

/-- Nothing of it can change under the request. -/
theorem Knows.grows (h : Grows s s') (hk : Knows session job rand s i p) : Knows session job rand s' i p := by
  cases p with
  | loading _ | findingToken _ _ | finished _ => exact hk
  | findingVideo _ _ _ | findingLeader _ _ | findingFollow _ _ | checkingVideo _ _ | findingEmail _ _ =>
    exact ⟨hk.1.grows h, hk.2⟩
  | readingReviews u v params =>
    obtain ⟨ha, videoId, hj, hv⟩ := hk
    exact ⟨ha.grows h, videoId, hj, by rw [h.videos]; exact hv⟩
  | insertingReview u v params =>
    obtain ⟨ha, hr, videoId, hj, hv⟩ := hk
    exact ⟨ha.grows h, hr, videoId, hj, by rw [h.videos]; exact hv⟩
  | readingFollowed u leader =>
    obtain ⟨ha, leaderId, hj, hkey, hl⟩ := hk
    exact ⟨ha.grows h, leaderId, hj, hkey, h.isSome hl⟩
  | insertingFollow u leader =>
    obtain ⟨ha, hne, leaderId, hj, hkey, hl⟩ := hk
    exact ⟨ha.grows h, hne, leaderId, hj, hkey, h.isSome hl⟩
  | deletingFollow k =>
    obtain ⟨u, id, ha, hj, hkey, hlt, hown⟩ := hk
    refine ⟨u, id, ha.grows h, hj, hkey, Nat.lt_of_lt_of_le hlt h.next, ?_⟩
    intro r hr
    rcases h.relationships k r hr with hr | hge
    · exact hown r hr
    · omega
  | readingQueue _ _ | countingQueue _ _ | insertingItem _ _ _ =>
    obtain ⟨ha, hj, hv⟩ := hk
    exact ⟨ha.grows h, hj, by rw [queueItems.videoDoesntExist, h.videos]; exact hv⟩
  | insertingInvitation u params =>
    obtain ⟨ha, hj, hvalid, hno⟩ := hk
    refine ⟨ha.grows h, hj, hvalid, ?_⟩
    intro k x hx
    obtain ⟨y, hy, -, he⟩ := h.user hx
    rw [← he]
    exact hno k y hy
  | validating id user _ | updatingUser id user _ =>
    obtain ⟨hj, x, hx, hname, hemail⟩ := hk
    have hid := h.users id
    rw [hx, Option.map_some] at hid
    obtain ⟨y, hy, he⟩ := Option.map_eq_some_iff.mp hid
    simp only [Prod.mk.injEq] at he
    exact ⟨hj, y, hy, he.1.trans hname, he.2.trans hemail⟩

/-- What a step adds to it. -/
theorem Knows.advance (hk : Knows session job rand s i p) :
    Knows session job rand (advance rand session i env s p).1 i (advance rand session i env s p).2 := by
  cases p with
  | loading j =>
    obtain ⟨hj, hreset⟩ := hk
    simp only [Overlapping.advance]
    split
    · trivial
    · trivial
    · next u user hc =>
      have ha : Acts session s i u := by
        cases hs : session i with
        | none =>
          rw [hs] at hc
          cases hc
        | some v =>
          simp only [hs, currentUser] at hc
          split at hc
          · next x hx =>
            obtain ⟨rfl, rfl⟩ : v = u ∧ x = user := by simpa using hc
            exact ⟨hs, by rw [hx]; rfl⟩
          · cases hc
      cases j with
      | review _ _ | follow _ | unfollow _ | enqueue _ => exact ⟨ha, hj⟩
      | invite params =>
        cases params with
        | none => trivial
        | some params => exact ⟨ha, hj⟩
      | reset token password => exact absurd rfl (hreset token password)
  | findingVideo u videoId params =>
    simp only [Overlapping.advance]
    split
    · trivial
    · trivial
    · next v x params hf => exact ⟨hk.1, videoId, hk.2, by rw [hf]; rfl⟩
  | readingReviews u v params =>
    simp only [Overlapping.advance]
    split
    · trivial
    · split
      · next hr => exact ⟨hk.1, hr, hk.2⟩
      · trivial
  | findingLeader u leaderId =>
    simp only [Overlapping.advance]
    split
    · trivial
    · next leader x hf =>
      obtain ⟨hkey, hl⟩ := find_some hf
      exact ⟨hk.1, leaderId, hk.2, hkey, by rw [hl]; rfl⟩
  | readingFollowed u leader =>
    simp only [Overlapping.advance]
    split
    · next hc =>
      refine ⟨hk.1, ?_, hk.2⟩
      rintro rfl
      simp [canFollow] at hc
    · trivial
  | findingFollow u id =>
    simp only [Overlapping.advance]
    split
    · trivial
    · next k r hf =>
      obtain ⟨hkey, hr⟩ := find_some hf
      split
      · next hown =>
        refine ⟨u, id, hk.1, hk.2, hkey, Table.get_lt_next hr, ?_⟩
        intro r' hr'
        rw [hr, Option.some.injEq] at hr'
        rw [← hr']
        simpa using hown
      · trivial
  | checkingVideo u videoId =>
    simp only [Overlapping.advance]
    split
    · trivial
    · next hv => exact ⟨hk.1, hk.2, by simpa using hv⟩
  | readingQueue u videoId =>
    simp only [Overlapping.advance]
    split
    · trivial
    · exact hk
  | countingQueue u videoId => exact hk
  | findingEmail u params =>
    simp only [Overlapping.advance]
    split
    · trivial
    · next hf =>
      split
      · next hv =>
        refine ⟨hk.1, hk.2, hv, ?_⟩
        intro k x hx he
        have := Table.findBy_none.mp hf k x hx
        simp [he] at this
      · trivial
  | insertingInvitation u params =>
    simp only [Overlapping.advance]
    split <;> trivial
  | findingToken token password =>
    simp only [Overlapping.advance]
    split
    · next id user hf =>
      obtain ⟨hid, ht⟩ := Table.findBy_some hf
      have ht : user.token = token := by simpa using ht
      exact ⟨by rw [ht]; exact hk, user, hid, rfl, rfl⟩
    · trivial
  | validating id user password =>
    simp only [Overlapping.advance]
    split
    · exact hk
    · trivial
  | insertingReview _ _ _ | insertingFollow _ _ | deletingFollow _ | insertingItem _ _ _ | updatingUser _ _ _
  | finished _ => trivial

end

end Overlapping

end Myflix
