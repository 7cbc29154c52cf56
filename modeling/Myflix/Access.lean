import Myflix.Reviews
import Myflix.Writes

/- Who may do what. The user a session acts as comes from its last login and from
   nothing else, and what a request can touch is confined by that user: each
   action makes its own check (a filter, an `include?`, a comparison with
   `current_user`), and `Confined` is what they add up to.

   What is proved:
     1. `access_control`: along every run, a session acts as a user only after a
        login with that user's email and password and no logout since, and every
        request is confined to what its session may write. -/
namespace Myflix
open Relational Rails Transition

/-! Sessions. -/

/-- The session's login goes through. -/
def LogsIn (rand : Nat → String) (sid : Nat) (w : World) (e : Event) : Prop :=
  e.sid = sid ∧ (∃ email password, e.request = .sessionsCreate email password) ∧
    (w.response rand e).reply = .redirectTo .home

/-- The session logs out. -/
def LogsOut (sid : Nat) (e : Event) : Prop := e.sid = sid ∧ e.request = .sessionsDestroy

/-- The last login of the session that went through was as `u`, with the email and a password
    of `u` at that moment, and the session has not logged out since. -/
def LoggedInAs (rand : Nat → String) (w : World) (es : List Event) (sid u : Nat) : Prop :=
  ∃ pre e post email password user, es = pre ++ e :: post ∧ e.sid = sid ∧
    e.request = .sessionsCreate email password ∧ LogsIn rand sid (run (World.step rand) w pre) e ∧
    (run (World.step rand) w pre).store.users.get u = some user ∧ user.email = email ∧
    user.authenticate password = .ok true ∧
    Along (World.step rand) (fun w e => ¬ LogsIn rand sid w e ∧ ¬ LogsOut sid e)
      (run (World.step rand) w (pre ++ [e])) post

theorem requireLogin_session {s : Store} {session : Option Nat} (action : Nat × User → Outcome)
    (h : ∀ u user, (action (u, user)).session = session) : (requireLogin s session action).session = session := by
  rcases requireLogin_cases s session action with ⟨r, hr⟩ | ⟨u, user, -, hr⟩
  · rw [hr]; rfl
  · rw [hr]; exact h u user

/-- A login goes through for a user with the email and the password, or nothing happens. -/
theorem sessions_create_cases (env : Env) (s : Store) (session : Option Nat) (email password : Param) :
    ((sessions.create env s session email password).session = session ∧
      (sessions.create env s session email password).response.reply ≠ .redirectTo .home) ∨
    ∃ id user, s.users.get id = some user ∧ user.email = email ∧ user.authenticate password = .ok true ∧
      sessions.create env s session email password =
        reply s (some id) (redirectTo .home (some (.success "You are now logged in."))) := by
  simp only [sessions.create]
  split
  · refine .inl ⟨rfl, ?_⟩
    intro h
    cases h
  · next id user hf =>
    obtain ⟨hid, he⟩ := Table.findBy_some hf
    cases ha : user.authenticate password with
    | error e =>
      refine .inl ⟨rfl, ?_⟩
      intro h
      cases h
    | ok b =>
      cases b with
      | false =>
        refine .inl ⟨rfl, ?_⟩
        intro h
        cases h
      | true => exact .inr ⟨id, user, hid, by simpa using he, ha, rfl⟩

theorem outcome_sessionsCreate (rand : Nat → String) (w : World) {e : Event} {email password : Param}
    (h : e.request = .sessionsCreate email password) :
    w.outcome rand e = sessions.create e.env w.store (w.sessions e.sid) email password := by
  rw [World.outcome, h]
  rfl

/-- Nothing but a login or a logout touches the session. -/
theorem handle_session (rand : Nat → String) (env : Env) (s : Store) (session : Option Nat) (req : Request) :
    (handle rand env s session req).session = session ∨ req = .sessionsDestroy ∨
      ∃ email password, req = .sessionsCreate email password := by
  cases req with
  | sessionsDestroy => exact .inr (.inl rfl)
  | sessionsCreate email password => exact .inr (.inr ⟨email, password, rfl⟩)
  | videosIndex | videosSearch _ | categoriesShow _ | queueItemsIndex | relationshipsIndex | invitationsNew
  | ui => exact .inl (requireLogin_session _ (fun _ _ => rfl))
  | root | sessionsNew | forgotPasswordsNew | forgotPasswordsConfirm | passwordResetsExpiredToken => exact .inl rfl
  | videosShow id | usersShow id =>
    refine .inl (requireLogin_session _ (fun _ _ => ?_))
    split <;> rfl
  | queueItemsDestroy p | queueItemsCreate p | adminVideosNew =>
    refine .inl (requireLogin_session _ (fun _ _ => ?_))
    simp only
    split <;> rfl
  | relationshipsCreate p | relationshipsDestroy p | queueItemsUpdateQueue p =>
    refine .inl (requireLogin_session _ (fun _ _ => ?_))
    simp only
    split
    · rfl
    · split <;> rfl
  | reviewsCreate p review =>
    refine .inl (requireLogin_session _ (fun _ _ => ?_))
    simp only
    split
    · rfl
    · rfl
    · split
      · rfl
      · split <;> rfl
  | invitationsCreate invitation =>
    refine .inl (requireLogin_session _ (fun _ _ => ?_))
    simp only
    split
    · rfl
    · split
      · rfl
      · split
        · split
          · split <;> rfl
          · rfl
        · rfl
  | adminVideosCreate video =>
    refine .inl (requireLogin_session _ (fun _ _ => ?_))
    simp only
    split
    · split
      · rfl
      · split
        · split <;> rfl
        · rfl
    · rfl
  | usersNew token =>
    simp only [handle, users.new]
    split <;> exact .inl rfl
  | usersCreate user stripeToken token =>
    simp only [handle, users.create]
    split
    · exact .inl rfl
    · split
      · exact .inl rfl
      · split <;> exact .inl rfl
  | forgotPasswordsCreate email =>
    simp only [handle, forgotPasswords.create]
    split
    · split <;> exact .inl rfl
    · exact .inl rfl
  | passwordResetsShow id =>
    simp only [handle, passwordResets.show']
    split <;> exact .inl rfl
  | passwordResetsCreate token password =>
    simp only [handle, passwordResets.create]
    split <;> exact .inl rfl

/-- A session keeps its user at every event that is not its login or its logout. -/
theorem step_session (rand : Nat → String) (sid : Nat) (w : World) (e : Event)
    (h : ¬ (LogsIn rand sid w e ∨ LogsOut sid e)) : (w.step rand e).sessions sid = w.sessions sid := by
  by_cases hsid : e.sid = sid
  · subst hsid
    show Function.update w.sessions e.sid _ e.sid = _
    rw [Function.update_self]
    rcases handle_session rand e.env w.store (w.sessions e.sid) e.request
      with hs | hs | ⟨email, password, hs⟩
    · exact hs
    · exact absurd (.inr ⟨rfl, hs⟩) h
    · have ho := outcome_sessionsCreate rand w hs
      rcases sessions_create_cases e.env w.store (w.sessions e.sid) email password
        with ⟨hkeep, -⟩ | ⟨id, user, -, -, -, heq⟩
      · rw [ho]
        exact hkeep
      · refine absurd (.inl ⟨rfl, ⟨email, password, hs⟩, ?_⟩) h
        rw [World.response, ho, heq]
        rfl
  · exact Function.update_of_ne (Ne.symm hsid) _ _

/-- A session that was nobody's at the start is a user's only by its last login. -/
theorem loggedInAs_of_session (rand : Nat → String) {w : World} {sid u : Nat} (h0 : w.sessions sid = none)
    {es : List Event} (h : (run (World.step rand) w es).sessions sid = some u) : LoggedInAs rand w es sid u := by
  rcases run_obs (fun w : World => w.sessions sid) (fun w e => LogsIn rand sid w e ∨ LogsOut sid e)
    (step_session rand sid) w es with ⟨ho, -⟩ | ⟨pre, e, post, rfl, hm, ho, hpost⟩
  · rw [h0, h] at ho
    cases ho
  · rw [h] at ho
    have ho : some u = Function.update (run (World.step rand) w pre).sessions e.sid
        ((run (World.step rand) w pre).outcome rand e).session sid := ho
    rcases hm with hin | hout
    · obtain ⟨rfl, ⟨email, password, hreq⟩, hhome⟩ := id hin
      have hout := outcome_sessionsCreate rand (run (World.step rand) w pre) hreq
      rw [World.response, hout] at hhome
      rw [Function.update_self, hout] at ho
      rcases sessions_create_cases e.env (run (World.step rand) w pre).store
        ((run (World.step rand) w pre).sessions e.sid) email password with ⟨-, hno⟩ | ⟨id, user, hid, hmail, hauth, heq⟩
      · exact absurd hhome hno
      · rw [heq] at ho
        have hu : u = id := Option.some.inj ho
        subst hu
        refine ⟨pre, e, post, email, password, user, rfl, rfl, hreq, hin, hid, hmail, hauth, ?_⟩
        rw [run_concat]
        intro pre' e' post' he
        exact not_or.mp (hpost pre' e' post' he)
    · -- after a logout the session is nobody's
      obtain ⟨rfl, hreq⟩ := hout
      rw [Function.update_self, World.outcome, hreq] at ho
      cases ho

/-! What a request may write. -/

/-- The request signed a user up with the token of a stored invitation, and the relationships
    it added are the two between the inviter and the new user. -/
def LinksInviter (req : Request) (s s' : Store) : Prop :=
  ∃ params stripeToken token k i row, req = .usersCreate (some params) stripeToken token ∧
    s.invitations.get k = some i ∧ i.token = token ∧ s'.users = s.users.insert row ∧
    s'.relationships = (s.relationships.insert ⟨i.inviter s', some s.users.next⟩).insert
      ⟨some s.users.next, i.inviter s'⟩

/-- What a request of a session may do to the rows of others. -/
structure Confined (session : Option Nat) (req : Request) (s s' : Store) : Prop where
  queues : ∀ v, session ≠ some v → s'.queueOf v = s.queueOf v
  reviews : ∀ v, session ≠ some v →
    s'.reviews.select (fun r => r.userId == v) = s.reviews.select (fun r => r.userId == v)
  unfollows : ∀ k r, s.relationships.get k = some r → s'.relationships.get k ≠ some r →
    ∃ u, session = some u ∧ r.followerId = some u
  follows : ∀ k r, s.relationships.get k = none → s'.relationships.get k = some r →
    (∃ u, session = some u ∧ r.followerId = some u) ∨ LinksInviter req s s'
  admins : ∀ k user, s.users.get k = some user → ∃ user', s'.users.get k = some user' ∧ user'.admin = user.admin
  newcomers : ∀ k user, s.users.get k = none → s'.users.get k = some user → user.admin ≠ some true
  videos : s'.videos ≠ s.videos → ∃ u user, ActsAs s session u user ∧ user.admin = some true
  credentials : ∀ k user user', s.users.get k = some user → s'.users.get k = some user' →
    user'.passwordDigest ≠ user.passwordDigest ∨ user'.token ≠ user.token →
      ∃ password, req = .passwordResetsCreate user.token password

section
variable {rand : Nat → String} {env : Env} {session : Option Nat} {s s' : Store} {req : Request}

theorem ReviewWrite.select_other {u v : Nat} {t : Table Review} (h : ReviewWrite s u t) (hv : u ≠ v) :
    t.select (fun r => r.userId == v) = s.reviews.select (fun r => r.userId == v) := by
  cases h with
  | rerate n hk hu =>
    apply Table.select_update_other
    intro a ha
    rw [hk, Option.some.injEq] at ha
    rw [← ha, hu]
    simpa using hv
  | add n content hu hvid hnew =>
    rw [Table.select_insert]
    simp [hv]

theorem Effect.reviews_other (he : Effect rand env session s req s') {v : Nat} (hv : session ≠ some v) :
    s'.reviews.select (fun r => r.userId == v) = s.reviews.select (fun r => r.userId == v) := by
  refine he.reviews_inv (I := fun x => x.reviews.select (fun r => r.userId == v) =
    s.reviews.select (fun r => r.userId == v)) ?_ ?_ rfl
  · intro x x' _ heq hx
    rw [heq]
    exact hx
  · intro x u t hu hw hx
    have hne : u ≠ v := fun h => hv (by rw [hu, h])
    exact (hw.select_other hne).trans hx

theorem Effect.unfollows (he : Effect rand env session s req s') (k : Nat) (r : Relationship)
    (hk : s.relationships.get k = some r) (hk' : s'.relationships.get k ≠ some r) :
    ∃ u, session = some u ∧ r.followerId = some u := by
  rcases he.relationships_cases with h | ⟨u, user, leader, leaderUser, -, -, -, -, h⟩ |
    ⟨u, user, id, r', hu, hid, hown, -, h⟩ | ⟨params, stripeToken, token, j, i, -, -, -, h⟩
  · rw [h] at hk'
    exact absurd hk hk'
  · rw [h] at hk'
    exact absurd (Table.get_insert_of_some _ hk) hk'
  · rw [h, Table.get_delete] at hk'
    split at hk'
    · next hkid =>
      rw [hkid, hid, Option.some.injEq] at hk
      exact ⟨u, hu.1, by rw [← hk]; exact hown⟩
    · exact absurd hk hk'
  · rw [h] at hk'
    exact absurd (Table.get_insert_of_some _ (Table.get_insert_of_some _ hk)) hk'

theorem Effect.follows (he : Effect rand env session s req s') (k : Nat) (r : Relationship)
    (hk : s.relationships.get k = none) (hk' : s'.relationships.get k = some r) :
    (∃ u, session = some u ∧ r.followerId = some u) ∨ LinksInviter req s s' := by
  rcases he.relationships_cases with h | ⟨u, user, leader, leaderUser, hu, -, -, -, h⟩ |
    ⟨u, user, id, r', -, -, -, -, h⟩ | ⟨params, stripeToken, token, j, i, hreq, hi, hus, h⟩
  · rw [h, hk] at hk'
    cases hk'
  · rw [h] at hk'
    rcases Table.get_insert_cases hk' with ⟨rfl, -⟩ | hk'
    · exact .inl ⟨u, hu.1, rfl⟩
    · rw [hk] at hk'
      cases hk'
  · rw [h, Table.get_delete, hk] at hk'
    split at hk' <;> cases hk'
  · obtain ⟨hj, ht⟩ := Table.findBy_some hi
    exact .inr ⟨params, stripeToken, token, j, i, _, hreq, hj, by simpa using ht, hus, h⟩

/-- A reset rewrites the digest and the token of one user, or nothing. -/
theorem reset_get (rand : Nat → String) (env : Env) (id : Nat) (user : User) (password : Param) {k : Nat} {x : User}
    (hk : s.users.get k = some x) :
    (passwordResets.reset rand env s id user password).users.get k = some x ∨
      (k = id ∧ (passwordResets.reset rand env s id user password).users.get k = some { x with
        passwordDigest := setPassword env.salt user.passwordDigest password
        token := generateToken rand s }) := by
  rw [reset_users]
  split
  · by_cases hkid : k = id
    · subst hkid
      exact .inr ⟨rfl, by rw [Table.get_update_self, hk]; rfl⟩
    · exact .inl (by rw [Table.get_update_ne _ hkid, hk])
  · exact .inl hk

/-- A stored user after a request: the same, or given a new digest and token by its token. -/
theorem Effect.user_cases (he : Effect rand env session s req s') {k : Nat} {x : User}
    (hk : s.users.get k = some x) :
    s'.users.get k = some x ∨ ∃ password,
      req = .passwordResetsCreate x.token password ∧ s'.users.get k = some { x with
        passwordDigest := setPassword env.salt x.passwordDigest password
        token := generateToken rand s } := by
  rcases he.users_cases with h | ⟨params, stripeToken, token, -, -, -, rfl⟩ |
    ⟨token, password, id, user, rfl, hid, ht, rfl⟩
  · exact .inl (by rw [h, hk])
  · exact .inl (by rw [signedUp_users]; exact Table.get_insert_of_some _ hk)
  · rcases reset_get rand env id user password hk with h | ⟨rfl, h⟩
    · exact .inl h
    · rw [hk, Option.some.injEq] at hid
      subst hid
      exact .inr ⟨password, by rw [ht], h⟩

theorem reset_get_none {id : Nat} {user : User} {password : Param} {k : Nat} (hk : s.users.get k = none) :
    (passwordResets.reset rand env s id user password).users.get k = none := by
  rw [reset_users]
  split
  · rw [Table.get_update, hk]
    split <;> rfl
  · exact hk

/-- A user that was not there is the one who signed up. -/
theorem Effect.new_user (he : Effect rand env session s req s') {k : Nat} {x : User}
    (hk : s.users.get k = none) (hk' : s'.users.get k = some x) :
    ∃ params stripeToken token, req = .usersCreate (some params) stripeToken token ∧ k = s.users.next ∧
      x = (NewUser.new params env.salt).row rand s := by
  rcases he.users_cases with h | ⟨params, stripeToken, token, hreq, -, -, rfl⟩ |
    ⟨token, password, id, user, -, -, -, rfl⟩
  · rw [h, hk] at hk'
    cases hk'
  · rw [signedUp_users] at hk'
    rcases Table.get_insert_cases hk' with ⟨hx, hn⟩ | hk'
    · exact ⟨params, stripeToken, token, hreq, hn, hx⟩
    · rw [hk] at hk'
      cases hk'
  · rw [reset_get_none hk] at hk'
    cases hk'

theorem Effect.confined (he : Effect rand env session s req s') : Confined session req s s' where
  queues _ hv := he.queueOf_other hv
  reviews _ hv := he.reviews_other hv
  unfollows := he.unfollows
  follows := he.follows
  admins := by
    intro k user hk
    rcases he.user_cases hk with h | ⟨password, -, h⟩
    · exact ⟨user, h, rfl⟩
    · exact ⟨_, h, rfl⟩
  newcomers := by
    intro k user hk hk'
    obtain ⟨params, stripeToken, token, -, -, rfl⟩ := he.new_user hk hk'
    intro h
    cases h
  videos := by
    intro hne
    rcases he.videos_cases with h | ⟨u, user, v, hu, hadmin, -⟩
    · exact absurd h hne
    · exact ⟨u, user, hu, hadmin⟩
  credentials := by
    intro k user user' hk hk' hne
    rcases he.user_cases hk with h | ⟨password, hreq, -⟩
    · rw [h, Option.some.injEq] at hk'
      subst hk'
      rcases hne with h | h
      · exact absurd rfl h
      · exact absurd rfl h
    · exact ⟨password, hreq⟩

end

/-- **Access control.** From a state where no session is logged in, whatever requests follow: a
    session acts as a user only by its last login, with no logout since, and that login had the
    user's email and a password that authenticated the user; and every request is confined to
    what its session may write. -/
theorem access_control (rand : Nat → String) (w : World) (h : ∀ sid, w.sessions sid = none) (es : List Event) :
    (∀ sid u, (run (World.step rand) w es).sessions sid = some u → LoggedInAs rand w es sid u) ∧
    Along (World.step rand)
      (fun w e => Confined (w.sessions e.sid) e.request w.store (w.step rand e).store) w es := by
  refine ⟨?_, ?_⟩
  · intro sid u hs
    exact loggedInAs_of_session rand (h sid) hs
  · intro pre e post _
    exact (step_effect rand (run (World.step rand) w pre) e).confined

/-- Nobody is logged in yet. -/
def World.fresh : World := ⟨Store.small, fun _ => none⟩

/-- A wrong password, then the right one, then a video for the queue. -/
def loggingIn : List Event :=
  [Event.fair 5 (.sessionsCreate (some "alice@example.com") (some "secret")),
   Event.fair 5 (.sessionsCreate (some "alice@example.com") (some "password")),
   Event.fair 5 (.queueItemsCreate (some "1"))]

theorem access_control_small :
    (run (World.step tally) World.fresh loggingIn).sessions 5 = some 1 ∧
    LoggedInAs tally World.fresh loggingIn 5 1 :=
  ⟨by decide, (access_control tally World.fresh (fun _ => rfl) loggingIn).1 5 1 (by decide)⟩

end Myflix
