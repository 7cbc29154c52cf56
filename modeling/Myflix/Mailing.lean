import Mathlib.Data.List.Induction
import Myflix.Answers
import Myflix.PageErrors

/- The application together with its mail. `AppMailer.delay` does not send: it
   writes the mail's arguments, the record with the attributes it has at that
   moment, into a Sidekiq job, and a worker sends the mail at some later time. A job
   whose worker fails is run again, so a mail can be late, can come more than once
   and, when its job is given up, not at all. A job that is given up goes to Sidekiq's
   dead jobs, from where it can be put back. `Post` is the application with the jobs
   that wait, the dead ones and the mails that were sent, and an `Act` is a request or
   something done to one job; acts come in any order.

   What is proved:
     1. `mailed_links_work`: whatever has happened since, the link in a mail is
        about the one it was sent to. The link of a reset mail opens that user's
        account until it is used once, and is expired afterwards; the link of an
        invitation shows the registration form for the friend's address, and
        whoever signs up with it and the inviter follow each other.

   The welcome mail is sent within its request and has no link. -/
namespace Myflix
open Relational Rails Transition

/-! Tokens of users and of invitations. -/

/-- Users and invitations have tokens of their own, and no user has an invitation's. -/
structure Tokens (rand : Nat → String) (w : World) : Prop where
  app : AppInv w
  users : TokensIssued rand w.store
  invitations : Issued rand Invitation.token w.store.drawn w.store.invitations
  apart : ∀ k i, w.store.invitations.get k = some i → ∃ n, i.token = some (rand n) ∧ TokenSpent rand w.store n

section
variable {rand : Nat → String} {w : World}

theorem Tokens.invitationInv (h : Tokens rand w) : InvitationInv rand w.store :=
  ⟨h.app.inviters, h.app.graph, h.invitations⟩

/-- The next value is no user's token, and never will be once an invitation has it. -/
theorem Tokens.next_spent (hr : Function.Injective rand) (h : Tokens rand w) {s' : Store}
    (hu : s'.users = w.store.users) (hd : s'.drawn = w.store.drawn + 1) : TokenSpent rand s' w.store.drawn := by
  refine ⟨by omega, ?_⟩
  rw [hu]
  intro k x hk
  exact h.users.next_unused hr hk

theorem Tokens.step (hr : Function.Injective rand) (h : Tokens rand w) (e : Event) : Tokens rand (w.step rand e) := by
  have he := step_effect rand w e
  refine ⟨h.app.step e, tokensIssued_effect hr h.app.accounts h.users he, (h.invitationInv.effect hr he).tokens, ?_⟩
  intro k i hk
  rcases he.invitations_cases with hi | ⟨u, user, params, -, hs⟩
  · rw [hi] at hk
    obtain ⟨n, hn, hspent⟩ := h.apart k i hk
    exact ⟨n, hn, tokenSpent_effect hr h.app.accounts hspent he⟩
  · rw [hs] at hk ⊢
    rcases Table.get_insert_cases hk with ⟨rfl, -⟩ | hk
    · exact ⟨w.store.drawn, rfl, h.next_spent hr rfl rfl⟩
    · obtain ⟨n, hn, hspent⟩ := h.apart k i hk
      exact ⟨n, hn, hspent.mono (Nat.le_succ _)⟩

theorem World.New.tokens (h : w.New) : Tokens rand w :=
  ⟨h.appInv, issued_of_no_rows h.users, issued_of_no_rows h.invitations,
    fun _ _ hk => absurd hk (Table.not_get_of_no_rows h.invitations)⟩

/-- A user's row stays until a reset is accepted with the user's token. -/
theorem user_kept {e : Event} {id : Nat} {user : User} (hid : w.store.users.get id = some user)
    (hno : ¬ ResetAccepted rand w e user.token) : (w.step rand e).store.users.get id = some user := by
  rcases (step_effect rand w e).user_cases hid with h | ⟨password, hreq, -⟩
  · exact h
  · have ho : w.outcome rand e =
        passwordResets.create rand e.env w.store (w.sessions e.sid) user.token password := by
      rw [World.outcome, hreq]
      rfl
    rcases passwordResets_create_cases rand e.env w.store (w.sessions e.sid) user.token password
      with ⟨k, x, -, -, heq⟩ | ⟨hnone, -⟩
    · refine absurd ⟨⟨password, hreq⟩, ?_⟩ hno
      rw [World.response, ho, heq]
      rfl
    · exact absurd rfl (hnone id user hid)

/-- An accepted reset spends its token. -/
theorem token_spent (hr : Function.Injective rand) (h : Tokens rand w) {e : Event} {token : Param}
    (ha : ResetAccepted rand w e token) : ∃ i, token = some (rand i) ∧ TokenSpent rand (w.step rand e).store i := by
  obtain ⟨password, id, user, hid, rfl, hs⟩ := resetAccepted_cases ha
  rw [hs]
  exact tokenSpent_reset e.env hr h.app.accounts h.users hid password

/-- Nobody changes email. -/
theorem email_kept (rand : Nat → String) (e : Event) {id : Nat} {email : Param}
    (h : ∃ user, w.store.users.get id = some user ∧ user.email = email) :
    ∃ user, (w.step rand e).store.users.get id = some user ∧ user.email = email := by
  obtain ⟨user, hid, rfl⟩ := h
  rcases (step_effect rand w e).user_cases hid with h | ⟨password, -, h⟩
  · exact ⟨user, h, rfl⟩
  · exact ⟨_, h, rfl⟩

end

/-! The system. -/

/-- The application, the mails in Sidekiq's jobs, those that wait and the dead ones, and the mails sent. -/
structure Post where
  world : World
  jobs : List Mail
  dead : List Mail
  delivered : List Mail

/-- What becomes of a job a worker has had: it is done, waits to be run again, or is given up. -/
inductive Fate where
  | done
  | again
  | givenUp
  deriving DecidableEq, Repr

/-- A request; a worker at the `i`-th job, which sends the mail or fails before; or the `i`-th dead
    job, put back or deleted. -/
inductive Act where
  | request (e : Event)
  | work (i : Nat) (sent : Bool) (fate : Fate)
  | revive (i : Nat)
  | discard (i : Nat)

def Act.isRequest : Act → Bool
  | .request _ => true
  | _ => false

namespace Post

def step (rand : Nat → String) (p : Post) : Act → Post
  | .request e =>
    { p with world := p.world.step rand e, jobs := p.jobs ++ (p.world.response rand e).mail.toList }
  | .work i sent fate =>
    match p.jobs[i]? with
    | none => p
    | some m =>
      { p with
        jobs := if fate = .again then p.jobs else p.jobs.eraseIdx i
        dead := if fate = .givenUp then m :: p.dead else p.dead
        delivered := if sent then m :: p.delivered else p.delivered }
  | .revive i =>
    match p.dead[i]? with
    | none => p
    | some m => { p with jobs := p.jobs ++ [m], dead := p.dead.eraseIdx i }
  | .discard i => { p with dead := p.dead.eraseIdx i }

/-- The mails there are. -/
def Holds (p : Post) (m : Mail) : Prop := m ∈ p.jobs ∨ m ∈ p.dead ∨ m ∈ p.delivered

/-- A new installation. -/
structure New (p : Post) : Prop where
  world : p.world.New
  jobs : p.jobs = []
  dead : p.dead = []
  delivered : p.delivered = []

end Post

section
variable {rand : Nat → String} {p : Post}

/-- What is done to the jobs does not touch the application. -/
theorem Post.step_world (rand : Nat → String) (p : Post) {a : Act} (h : a.isRequest = false) :
    (p.step rand a).world = p.world := by
  cases a with
  | request e => cases h
  | discard i => rfl
  | work i sent fate =>
    simp only [Post.step]
    split <;> rfl
  | revive i =>
    simp only [Post.step]
    split <;> rfl

/-- What requests keep, the system keeps. -/
theorem post_inv {I : World → Prop} (hI : ∀ w e, I w → I (w.step rand e)) (h : I p.world) (acts : List Act) :
    I (run (Post.step rand) p acts).world := by
  refine run_inv (I := fun p : Post => I p.world) ?_ h acts
  intro p a hp
  cases a with
  | request e => exact hI p.world e hp
  | work | revive | discard =>
    rw [Post.step_world rand p rfl]
    exact hp

theorem mem_of_pushed {α : Type} {c : Prop} [Decidable c] {x y : α} {l : List α}
    (h : x ∈ if c then y :: l else l) : x = y ∨ x ∈ l := by
  split at h
  · exact List.mem_cons.mp h
  · exact .inr h

/-- A worker has the mail of a job that was there. -/
theorem holds_work {i : Nat} {sent : Bool} {fate : Fate} {m : Mail}
    (h : (p.step rand (.work i sent fate)).Holds m) : p.Holds m := by
  simp only [Post.step] at h
  split at h
  · exact h
  · next m' hm =>
    have hjob : m' ∈ p.jobs := List.mem_of_getElem? hm
    rcases h with h | h | h
    · simp only at h
      split at h
      · exact .inl h
      · exact .inl (List.mem_of_mem_eraseIdx h)
    · rcases mem_of_pushed h with rfl | h
      · exact .inl hjob
      · exact .inr (.inl h)
    · rcases mem_of_pushed h with rfl | h
      · exact .inl hjob
      · exact .inr (.inr h)

theorem holds_revive {i : Nat} {m : Mail} (h : (p.step rand (.revive i)).Holds m) : p.Holds m := by
  simp only [Post.step] at h
  split at h
  · exact h
  · next m' hm =>
    rcases h with h | h | h
    · rcases List.mem_append.mp h with h | h
      · exact .inl h
      · rw [List.mem_singleton.mp h]
        exact .inr (.inl (List.mem_of_getElem? hm))
    · exact .inr (.inl (List.mem_of_mem_eraseIdx h))
    · exact .inr (.inr h)

/-- A mail was there before, or the request has just sent it. -/
theorem holds_step {a : Act} {m : Mail} (h : (p.step rand a).Holds m) :
    p.Holds m ∨ ∃ e, a = .request e ∧ (p.world.response rand e).mail = some m := by
  cases a with
  | request e =>
    rcases h with h | h
    · rcases List.mem_append.mp h with h | h
      · exact .inl (.inl h)
      · exact .inr ⟨e, rfl, Option.mem_toList.mp h⟩
    · exact .inl (.inr h)
  | work i sent fate => exact .inl (holds_work h)
  | revive i => exact .inl (holds_revive h)
  | discard i =>
    rcases h with h | h | h
    · exact .inl (.inl h)
    · exact .inl (.inr (.inl (List.mem_of_mem_eraseIdx h)))
    · exact .inl (.inr (.inr h))

theorem Post.New.holds (h : p.New) (m : Mail) : ¬ p.Holds m := by
  simp [Post.Holds, h.jobs, h.dead, h.delivered]

/-- Every mail comes from a request. -/
theorem holds_run (h₀ : p.New) {acts : List Act} {m : Mail} (h : (run (Post.step rand) p acts).Holds m) :
    ∃ pre e post, acts = pre ++ .request e :: post ∧
      ((run (Post.step rand) p pre).world.response rand e).mail = some m := by
  induction acts using List.reverseRecOn with
  | nil => exact absurd h (h₀.holds m)
  | append_singleton acts a ih =>
    rw [run_concat] at h
    rcases holds_step h with h | ⟨e, rfl, he⟩
    · obtain ⟨pre, e, post, rfl, he⟩ := ih h
      exact ⟨pre, e, post ++ [a], by simp, he⟩
    · exact ⟨acts, e, [], rfl, he⟩

end

/-! Links. -/

/-- No reset was accepted with the token. -/
def Unused (rand : Nat → String) (token : Param) (p : Post) (acts : List Act) : Prop :=
  Along (Post.step rand) (fun p a => ∀ e, a = .request e → ¬ ResetAccepted rand p.world e token) p acts

/-- The link opens the reset form, and the form resets the password of this user. -/
def ResetOpens (rand : Nat → String) (s : Store) (token : Param) (id : Nat) (user : User) : Prop :=
  ∀ env session,
    handle rand env s session (.passwordResetsShow token) =
      reply s session (render (.passwordResetsShow token) none) ∧
    ∀ password, Param.blank password = false →
      TookEffect s (handle rand env s session (.passwordResetsCreate token password)).store id user password

/-- The link, and a form opened with it before, lead to the page for expired tokens. -/
def ResetExpired (rand : Nat → String) (s : Store) (token : Param) : Prop :=
  ∀ env session,
    handle rand env s session (.passwordResetsShow token) = reply s session (redirectTo .expiredToken none) ∧
    ∀ password, handle rand env s session (.passwordResetsCreate token password) =
      reply s session (redirectTo .expiredToken none)

/-- The link opens the registration form with the address in it, and the user who signs up with
    the form and the inviter follow each other. -/
def InvitationOpens (rand : Nat → String) (s : Store) (email token : Param) : Prop :=
  ∃ inviter, (s.users.get inviter).isSome ∧ ∀ env session,
    handle rand env s session (.usersNew token) = reply s session (render (.usersNew email token) none) ∧
    ∀ user stripeToken,
      let o := handle rand env s session (.usersCreate user stripeToken token)
      o.response.reply = .redirectTo .login →
        follows o.store s.users.next inviter = true ∧ follows o.store inviter s.users.next = true

section
variable {rand : Nat → String} {w : World}

/-- The user of a token is found by it. -/
theorem Tokens.find_user (h : Tokens rand w) (env : Env) {id : Nat} {user : User}
    (hid : w.store.users.get id = some user) :
    w.store.users.findBy env.take (fun x => x.token == user.token) = some (id, user) := by
  apply Table.findBy_unique hid (by simp)
  intro j x hj hx
  exact h.users.distinct j id x user hj hid (by simpa using hx)

theorem Tokens.resetOpens (h : Tokens rand w) {id : Nat} {user : User} (hid : w.store.users.get id = some user) :
    ResetOpens rand w.store user.token id user := by
  intro env session
  have hfind := h.find_user env hid
  refine ⟨by simp only [handle, passwordResets.show', hfind], ?_⟩
  intro password hp
  simp only [handle, passwordResets.create, hfind]
  exact (reset_tookEffect_iff h.app.accounts h.app.secrets hid password).mpr hp

theorem resetExpired_of_spent {s : Store} {i : Nat} (h : TokenSpent rand s i) :
    ResetExpired rand s (some (rand i)) := by
  intro env session
  have hfind : s.users.findBy env.take (fun x => x.token == some (rand i)) = none := by
    apply Table.findBy_none.mpr
    intro k x hk
    simpa using h.gone k x hk
  refine ⟨by simp only [handle, passwordResets.show', hfind], ?_⟩
  intro password
  simp only [handle, passwordResets.create, hfind]

theorem Tokens.invitationOpens (h : Tokens rand w) {k : Nat} {i : Invitation}
    (hk : w.store.invitations.get k = some i) : InvitationOpens rand w.store i.friendEmail i.token := by
  refine ⟨i.inviterId, h.app.inviters k i hk, ?_⟩
  intro env session
  refine ⟨by simp only [handle, users.new, h.invitationInv.find_token env hk], ?_⟩
  intro user stripeToken o ho
  obtain ⟨params, -, hs⟩ := users_create_success ho
  rw [show o.store = _ from hs]
  exact h.invitationInv.follows_link _ hk

end

section
variable {rand : Nat → String} {p : Post} {acts : List Act} {id : Nat} {user : User}

theorem Tokens.run (hr : Function.Injective rand) (h : Tokens rand p.world) (acts : List Act) :
    Tokens rand (run (Post.step rand) p acts).world :=
  post_inv (I := Tokens rand) (fun _ e hw => hw.step hr e) h acts

/-- Until it is used, the token stays with its user. -/
theorem Unused.user_kept (h : Unused rand user.token p acts) (hid : p.world.store.users.get id = some user) :
    (run (Post.step rand) p acts).world.store.users.get id = some user := by
  refine run_inv_of (I := fun p : Post => p.world.store.users.get id = some user) ?_ hid acts h
  intro p a hp hno
  cases a with
  | request e => exact Myflix.user_kept hp (hno e rfl)
  | work | revive | discard =>
    rw [Post.step_world rand p rfl]
    exact hp

/-- Once it is used, it stays spent. -/
theorem spent_of_used (hr : Function.Injective rand) (h : Tokens rand p.world) {token : Param}
    (hu : ¬ Unused rand token p acts) :
    ∃ i, token = some (rand i) ∧ TokenSpent rand (run (Post.step rand) p acts).world.store i := by
  simp only [Unused, Along, not_forall, not_not] at hu
  obtain ⟨pre, a, post, rfl, e, rfl, hacc⟩ := hu
  have hpre := h.run hr pre
  obtain ⟨i, hi, hspent⟩ := token_spent hr hpre hacc
  refine ⟨i, hi, ?_⟩
  rw [run_append, run_cons]
  refine (post_inv (I := fun w => Tokens rand w ∧ TokenSpent rand w.store i) ?_ ⟨hpre.step hr e, hspent⟩ post).2
  intro w e hw
  exact ⟨hw.1.step hr e, tokenSpent_effect hr hw.1.app.accounts hw.2 (step_effect rand w e)⟩

end

/-- What a mail that was sent before the acts does after them. -/
def LinkWorks (rand : Nat → String) (sent : Post) (acts : List Act) : Mail → Prop
  | .sendForgotPassword email token =>
    let s := (run (Post.step rand) sent acts).world.store
    ∃ id user, s.users.get id = some user ∧ user.email = email ∧
      (Unused rand token sent acts ∧ ResetOpens rand s token id user ∨
        ¬ Unused rand token sent acts ∧ ResetExpired rand s token)
  -- the form is filled in with the address as its column has kept it
  | .sendInvitation email token =>
    InvitationOpens rand (run (Post.step rand) sent acts).world.store (truncated email) token

/-- A mail works from the request that sends it on. -/
theorem linkWorks_of_sent {rand : Nat → String} (hr : Function.Injective rand) {p : Post} (h : Tokens rand p.world)
    {e : Event} {m : Mail} (hm : (p.world.response rand e).mail = some m) (acts : List Act) :
    LinkWorks rand (p.step rand (.request e)) acts m := by
  have h' : Tokens rand (p.step rand (.request e)).world := h.step hr e
  have hsent : Sends rand p.world.store (p.world.sessions e.sid) e.request m
      (p.step rand (.request e)).world.store :=
    (handle_answers rand e.env p.world.store (p.world.sessions e.sid) e.request).mailed m hm
  have hend := h'.run hr acts
  cases m with
  | sendForgotPassword email token =>
    obtain ⟨id, user, hid, rfl, rfl⟩ := hsent.user
    obtain ⟨x, hx, hxe⟩ := post_inv (I := fun w => ∃ x, w.store.users.get id = some x ∧ x.email = user.email)
      (fun w e hw => email_kept rand e hw) ⟨user, hid, rfl⟩ acts
    refine ⟨id, x, hx, hxe, ?_⟩
    by_cases hu : Unused rand user.token (p.step rand (.request e)) acts
    · obtain rfl : user = x := Option.some.inj ((hu.user_kept hid).symm.trans hx)
      exact .inl ⟨hu, hend.resetOpens hx⟩
    · obtain ⟨i, hi, hspent⟩ := spent_of_used hr h' hu
      exact .inr ⟨hu, by rw [hi]; exact resetExpired_of_spent hspent⟩
  | sendInvitation email token =>
    obtain ⟨k, i, hk, hemail, rfl⟩ := hsent.stored
    have hk' := post_inv (I := fun w => w.store.invitations.get k = some i)
      (fun w e hw => (step_effect rand w e).invitation_kept hw) hk acts
    have hopens := hend.invitationOpens hk'
    rw [hemail] at hopens
    exact hopens

/-- **The links in the mails.** From a new installation and with a SecureRandom that never repeats,
    after any requests and any work of the mail workers: every mail that waits, was given up
    or was sent comes from a request, and its link does what the mail is for, however late it is opened. -/
theorem mailed_links_work (rand : Nat → String) (hr : Function.Injective rand) (p₀ : Post) (h₀ : p₀.New)
    (acts : List Act) (m : Mail) (hm : (run (Post.step rand) p₀ acts).Holds m) :
    ∃ pre e post, acts = pre ++ .request e :: post ∧
      ((run (Post.step rand) p₀ pre).world.response rand e).mail = some m ∧
      LinkWorks rand (run (Post.step rand) p₀ (pre ++ [.request e])) post m := by
  obtain ⟨pre, e, post, hacts, he⟩ := holds_run h₀ hm
  refine ⟨pre, e, post, hacts, he, ?_⟩
  rw [run_concat]
  exact linkWorks_of_sent hr (h₀.world.tokens.run hr pre) he post

/-- Alice signs up and asks for a reset; the mail is sent, and its job stays to be run again. -/
def forgetting : List Act :=
  [.request (Event.fair 1 (.usersCreate (some ⟨some "alice", some "alice@example.com", some "password"⟩) none none)),
   .request (Event.fair 1 (.forgotPasswordsCreate (some "alice@example.com"))),
   .work 0 true .again]

theorem mailed_links_work_small :
    let p := run (Post.step tally) ⟨World.stocked, [], [], []⟩ forgetting
    p.delivered = [.sendForgotPassword (some "alice@example.com") (some "")] ∧
      ∃ pre e post, forgetting = pre ++ .request e :: post ∧
        LinkWorks tally (run (Post.step tally) ⟨World.stocked, [], [], []⟩ (pre ++ [.request e])) post
          (.sendForgotPassword (some "alice@example.com") (some "")) := by
  refine ⟨by decide, ?_⟩
  obtain ⟨pre, e, post, hacts, -, hw⟩ := mailed_links_work tally tally_injective ⟨World.stocked, [], [], []⟩
    ⟨stocked_new, rfl, rfl, rfl⟩ forgetting (.sendForgotPassword (some "alice@example.com") (some ""))
    (.inr (.inr (by decide)))
  exact ⟨pre, e, post, hacts, hw⟩

end Myflix
