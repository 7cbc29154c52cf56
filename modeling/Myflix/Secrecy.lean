import Myflix.Mailing

/- Who can learn a reset token. An intruder has browser sessions, in which any
   request can be made, and mailboxes, whose mails can be read. The tokens known
   are those of the pages these sessions are shown, of the mails these mailboxes
   get and, since config/routes.rb mounts Sidekiq's dashboard at /sidekiq without
   asking who is there, of every mail in a job when the dashboard is opened: it lists
   the jobs that wait and the dead ones with their arguments, and those are the
   records with their tokens.
   A token is not guessed: what is sent is known or was never returned by
   SecureRandom.

   What is proved:
     1. `reset_tokens_secret_iff`: nobody else's token becomes known exactly when the
        dashboard is not opened while a reset mail of somebody else is listed whose
        token has not been used; and as long as it is not, no request of the
        intruder changes anybody else.
     2. `dashboard_takeover`: with the dashboard, four requests log the intruder in
        as any user. -/
namespace Myflix
open Relational Rails Transition

structure Intruder where
  sessions : Nat → Bool
  mailboxes : String → Bool

def Intruder.reads (i : Intruder) (address : Option String) : Bool := address.any i.mailboxes

def Mail.address : Mail → Option String
  | .sendForgotPassword email _ | .sendInvitation email _ => email

def Mail.token : Mail → Option String
  | .sendForgotPassword _ token | .sendInvitation _ token => token

/-- What the dashboard lists: the jobs that wait and the dead ones. -/
def Post.listed (p : Post) : List Mail := p.jobs ++ p.dead

/-- The application and its mail, and the tokens the intruder knows. -/
structure Attack where
  post : Post
  known : List String

/-- Somebody acts, or the intruder opens the dashboard. -/
inductive Turn where
  | act (a : Act)
  | dashboard

/-- The token in the page of a response. -/
def Response.token (r : Response) : Option String :=
  match r.reply with
  | .render view => view.token
  | _ => none

namespace Attack

/-- What an act shows the intruder's sessions. -/
def shown (rand : Nat → String) (i : Intruder) (p : Post) : Act → List String
  | .request e => if i.sessions e.sid then (p.world.response rand e).token.toList else []
  | _ => []

/-- What is in the intruder's mailboxes. -/
def mailed (i : Intruder) (p : Post) : List String :=
  (p.delivered.filter (fun m => i.reads m.address)).filterMap Mail.token

def step (rand : Nat → String) (i : Intruder) (a : Attack) : Turn → Attack
  | .act x => ⟨a.post.step rand x, shown rand i a.post x ++ (mailed i (a.post.step rand x) ++ a.known)⟩
  | .dashboard => ⟨a.post, a.post.listed.filterMap Mail.token ++ a.known⟩

/-- The intruder does not guess. -/
def Guessless (rand : Nat → String) (i : Intruder) (a : Attack) (t : Turn) : Prop :=
  ∀ e, t = .act (.request e) → i.sessions e.sid = true →
    ∀ token ∈ e.request.tokens, token ∈ a.known ∨ ∀ n, rand n ≠ token

/-- Nobody else has a token that is known. -/
def Secret (i : Intruder) (a : Attack) : Prop :=
  ∀ token ∈ a.known, ∀ k x, a.post.world.store.users.get k = some x → x.token = some token →
    i.reads x.email = true

/-- The dashboard is opened only when every reset mail it lists is the intruder's own, or its token
    has been used. -/
def Blind (i : Intruder) (a : Attack) (t : Turn) : Prop :=
  t = .dashboard → ∀ email token, .sendForgotPassword email token ∈ a.post.listed →
    i.reads email = true ∨ ∀ k x, a.post.world.store.users.get k = some x → x.token ≠ token

/-- A request of the intruder leaves everybody else as they are. -/
def Spares (rand : Nat → String) (i : Intruder) (a : Attack) (t : Turn) : Prop :=
  ∀ e, t = .act (.request e) → i.sessions e.sid = true → ∀ k x, a.post.world.store.users.get k = some x →
    i.reads x.email = false → (a.step rand i t).post.world.store.users.get k = some x

end Attack

/-! The mails there are. -/

/-- The reset mail of a user has the user's token or a spent one; an invitation is stored. -/
def Traced (rand : Nat → String) (s : Store) : Mail → Prop
  | .sendForgotPassword email token => ∃ id user, s.users.get id = some user ∧ user.email = email ∧
      (user.token = token ∨ ∃ n, token = some (rand n) ∧ TokenSpent rand s n)
  | .sendInvitation _ token => ∃ k i, s.invitations.get k = some i ∧ i.token = token

structure MailInv (rand : Nat → String) (p : Post) : Prop where
  tokens : Tokens rand p.world
  traced : ∀ m, p.Holds m → Traced rand p.world.store m

section
variable {rand : Nat → String} {w : World} {p : Post}

theorem Traced.step (hr : Function.Injective rand) (h : Tokens rand w) (e : Event) {m : Mail}
    (hm : Traced rand w.store m) : Traced rand (w.step rand e).store m := by
  have he := step_effect rand w e
  cases m with
  | sendForgotPassword email token =>
    obtain ⟨id, user, hid, hemail, htoken⟩ := hm
    obtain ⟨x, hx, hxe⟩ := email_kept rand e ⟨user, hid, hemail⟩
    refine ⟨id, x, hx, hxe, ?_⟩
    rcases htoken with rfl | ⟨n, hn, hspent⟩
    · by_cases ha : ResetAccepted rand w e user.token
      · exact .inr (token_spent hr h ha)
      · obtain rfl : user = x := Option.some.inj ((user_kept hid ha).symm.trans hx)
        exact .inl rfl
    · exact .inr ⟨n, hn, tokenSpent_effect hr h.app.accounts hspent he⟩
  | sendInvitation email token =>
    obtain ⟨k, i, hk, ht⟩ := hm
    exact ⟨k, i, he.invitation_kept hk, ht⟩

/-- A mail that is sent now. -/
theorem traced_of_sends {s s' : Store} {session : Option Nat} {req : Request} {m : Mail}
    (h : Sends rand s session req m s') : Traced rand s' m := by
  cases m with
  | sendForgotPassword email token =>
    obtain ⟨id, user, hid, he, ht⟩ := h.user
    exact ⟨id, user, hid, he, .inl ht⟩
  | sendInvitation email token =>
    obtain ⟨k, i, hk, -, ht⟩ := h.stored
    exact ⟨k, i, hk, ht⟩

theorem MailInv.step (hr : Function.Injective rand) (h : MailInv rand p) (a : Act) : MailInv rand (p.step rand a) := by
  cases a with
  | request e =>
    refine ⟨h.tokens.step hr e, ?_⟩
    intro m hm
    rcases holds_step hm with hm | ⟨e', he', hm⟩
    · exact (h.traced m hm).step hr h.tokens e
    · obtain rfl : e = e' := Act.request.inj he'
      exact traced_of_sends ((handle_answers rand e.env p.world.store (p.world.sessions e.sid) e.request).mailed m hm)
  | work | revive | discard =>
    refine ⟨by rw [Post.step_world rand p rfl]; exact h.tokens, ?_⟩
    intro m hm
    rw [Post.step_world rand p rfl]
    rcases holds_step hm with hm | ⟨e', he', -⟩
    · exact h.traced m hm
    · cases he'

theorem Post.New.mailInv (h : p.New) : MailInv rand p := by
  refine ⟨h.world.tokens, ?_⟩
  intro m hm
  exact absurd hm (h.holds m)

/-- The token of a mail has been drawn. -/
theorem Traced.drawn (h : Tokens rand w) {m : Mail} (hm : Traced rand w.store m) {t : String}
    (ht : m.token = some t) : ∃ n, n < w.store.drawn ∧ rand n = t := by
  cases m with
  | sendForgotPassword email token =>
    obtain rfl : token = some t := ht
    obtain ⟨id, user, hid, -, htoken⟩ := hm
    rcases htoken with htoken | ⟨n, hn, hspent⟩
    · obtain ⟨n, hlt, hn⟩ := h.users.drawn id user hid
      exact ⟨n, hlt, Option.some.inj (hn.symm.trans htoken)⟩
    · exact ⟨n, hspent.lt, (Option.some.inj hn).symm⟩
  | sendInvitation email token =>
    obtain rfl : token = some t := ht
    obtain ⟨k, i, hk, htoken⟩ := hm
    obtain ⟨n, hn, hspent⟩ := h.apart k i hk
    exact ⟨n, hspent.lt, Option.some.inj (hn.symm.trans htoken)⟩

/-- Whoever has the token of a mail is the one the mail is for. -/
theorem Traced.address (h : Tokens rand w) {m : Mail} (hm : Traced rand w.store m) {k : Nat} {x : User}
    (hk : w.store.users.get k = some x) (ht : x.token = m.token) :
    x.email = m.address ∧ m = .sendForgotPassword x.email x.token := by
  cases m with
  | sendForgotPassword email token =>
    obtain ⟨id, user, hid, hemail, htoken⟩ := hm
    have ht : x.token = token := ht
    rcases htoken with htoken | ⟨n, hn, hspent⟩
    · obtain rfl : k = id := h.users.distinct k id x user hk hid (by rw [ht, htoken])
      obtain rfl : x = user := Option.some.inj (hk.symm.trans hid)
      exact ⟨hemail, by rw [hemail, ht]⟩
    · exact absurd (ht.trans hn) (hspent.gone k x hk)
  | sendInvitation email token =>
    obtain ⟨j, i, hj, htoken⟩ := hm
    obtain ⟨n, hn, hspent⟩ := h.apart j i hj
    have ht : x.token = token := ht
    exact absurd (by rw [ht, ← htoken, hn]) (hspent.gone k x hk)

/-- A user's token was the same user's before, or it has just been drawn. -/
theorem token_cases (e : Event) {k : Nat} {x : User} (hk : (w.step rand e).store.users.get k = some x) :
    (∃ y, w.store.users.get k = some y ∧ y.token = x.token ∧ y.email = x.email) ∨
      x.token = some (rand w.store.drawn) := by
  rcases (step_effect rand w e).users_cases with hs | ⟨params, stripeToken, token, -, -, -, hs⟩ |
    ⟨token, password, id, user, -, hid, -, hs⟩
  · rw [hs] at hk
    exact .inl ⟨x, hk, rfl, rfl⟩
  · rw [hs, signedUp_users] at hk
    rcases Table.get_insert_cases hk with ⟨rfl, -⟩ | hk
    · exact .inr rfl
    · exact .inl ⟨x, hk, rfl, rfl⟩
  · rw [hs, reset_users] at hk
    split at hk
    · rcases Table.get_update_cases hk with ⟨y, -, rfl⟩ | ⟨-, hk⟩
      · exact .inr rfl
      · exact .inl ⟨x, hk, rfl, rfl⟩
    · exact .inl ⟨x, hk, rfl, rfl⟩

end

/-! What the intruder knows. -/

/-- The mails are traced, and no token that is known will be drawn again. -/
structure AttackInv (rand : Nat → String) (a : Attack) : Prop where
  mail : MailInv rand a.post
  stale : ∀ t ∈ a.known, ∀ n, a.post.world.store.drawn ≤ n → rand n ≠ t

section
variable {rand : Nat → String} {i : Intruder} {a : Attack}

/-- A page shows the token its request has named. -/
theorem mem_shown {x : Act} {t : String} (ht : t ∈ Attack.shown rand i a.post x) :
    ∃ e, x = .request e ∧ i.sessions e.sid = true ∧ t ∈ e.request.tokens := by
  cases x with
  | work | revive | discard => simp [Attack.shown] at ht
  | request e =>
    simp only [Attack.shown] at ht
    split at ht
    · next hmine =>
      refine ⟨e, rfl, hmine, ?_⟩
      have ht : (a.post.world.response rand e).token = some t := Option.mem_toList.mp ht
      simp only [Response.token] at ht
      split at ht
      · next view hview =>
        have hv := ((handle_answers rand e.env a.post.world.store (a.post.world.sessions e.sid)
          e.request).drawn view hview).2.2
        cases view with
        | usersNew email token => exact hv t ht
        | passwordResetsShow token => exact hv t ht
        | usersShow | sessionsNew | videosShow | invitationsNew | adminVideosNew | other => cases ht
      · cases ht
    · cases ht

theorem mem_mailed {p : Post} {t : String} (ht : t ∈ Attack.mailed i p) :
    ∃ m, p.Holds m ∧ i.reads m.address = true ∧ m.token = some t := by
  simp only [Attack.mailed, List.mem_filterMap, List.mem_filter] at ht
  obtain ⟨m, ⟨hm, hreads⟩, hmt⟩ := ht
  exact ⟨m, .inr (.inr hm), hreads, hmt⟩

theorem holds_of_listed {p : Post} {m : Mail} (h : m ∈ p.listed) : p.Holds m := by
  rcases List.mem_append.mp h with h | h
  · exact .inl h
  · exact .inr (.inl h)

theorem mem_listed_token {p : Post} {t : String} :
    t ∈ p.listed.filterMap Mail.token ↔ ∃ m ∈ p.listed, m.token = some t := List.mem_filterMap

/-- Where a token that is known after an act comes from. -/
theorem known_cases (hg : a.Guessless rand i (.act x)) {t : String} (ht : t ∈ (a.step rand i (.act x)).known) :
    t ∈ a.known ∨ (∀ n, rand n ≠ t) ∨
      ∃ m, (a.post.step rand x).Holds m ∧ i.reads m.address = true ∧ m.token = some t := by
  simp only [Attack.step, List.mem_append] at ht
  rcases ht with ht | ht | ht
  · obtain ⟨e, rfl, hmine, htok⟩ := mem_shown ht
    rcases hg e rfl hmine t htok with h | h
    · exact .inl h
    · exact .inr (.inl h)
  · exact .inr (.inr (mem_mailed ht))
  · exact .inl ht

theorem drawn_le_step (rand : Nat → String) (p : Post) (x : Act) :
    p.world.store.drawn ≤ (p.step rand x).world.store.drawn := by
  cases x with
  | request e => exact (step_effect rand p.world e).drawn_le
  | work | revive | discard => rw [Post.step_world rand p rfl]

theorem AttackInv.step (hr : Function.Injective rand) (h : AttackInv rand a) {t : Turn}
    (hg : a.Guessless rand i t) : AttackInv rand (a.step rand i t) := by
  -- what has been drawn is not drawn again
  have hmail : ∀ {p : Post}, MailInv rand p → ∀ m, p.Holds m → ∀ u, m.token = some u →
      ∀ n, p.world.store.drawn ≤ n → rand n ≠ u := by
    intro p hp m hm u hu n hn he
    obtain ⟨k, hk, rfl⟩ := (hp.traced m hm).drawn hp.tokens hu
    have := hr he
    omega
  cases t with
  | act x =>
    have hp := h.mail.step hr x
    refine ⟨hp, ?_⟩
    intro u hu n hn
    have hle := drawn_le_step rand a.post x
    rcases known_cases hg hu with hu | hu | ⟨m, hm, -, hmu⟩
    · exact h.stale u hu n (hle.trans hn)
    · exact hu n
    · exact hmail hp m hm u hmu n hn
  | dashboard =>
    refine ⟨h.mail, ?_⟩
    intro u hu n hn
    rcases List.mem_append.mp hu with hu | hu
    · obtain ⟨m, hm, hmu⟩ := mem_listed_token.mp hu
      exact hmail h.mail m (holds_of_listed hm) u hmu n hn
    · exact h.stale u hu n hn

/-- An act lets nobody else's token out. -/
theorem AttackInv.secret_act (hr : Function.Injective rand) (h : AttackInv rand a) {x : Act}
    (hg : a.Guessless rand i (.act x)) (hs : a.Secret i) : (a.step rand i (.act x)).Secret i := by
  have hp := h.mail.step hr x
  intro t ht k y hk hy
  have hk : (a.post.step rand x).world.store.users.get k = some y := hk
  rcases known_cases hg ht with hold | hno | ⟨m, hm, hreads, hmt⟩
  · -- known before: it is the token of a user who had it before
    cases x with
    | request e =>
      rcases token_cases e hk with ⟨z, hz, hzt, hze⟩ | hnew
      · rw [← hze]
        exact hs t hold k z hz (by rw [hzt, hy])
      · exact absurd (Option.some.inj (hnew.symm.trans hy)) (h.stale t hold _ (Nat.le_refl _))
    | work | revive | discard =>
      rw [Post.step_world rand a.post rfl] at hk
      exact hs t hold k y hk hy
  · obtain ⟨n, -, hn⟩ := hp.tokens.users.drawn k y hk
    exact absurd (Option.some.inj (hn.symm.trans hy)) (hno n)
  · rw [((hp.traced m hm).address hp.tokens hk (by rw [hy, hmt])).1]
    exact hreads

/-- The dashboard lets out nobody else's token exactly when it lists none. -/
theorem AttackInv.secret_dashboard (h : AttackInv rand a) (hs : a.Secret i) :
    (a.step rand i .dashboard).Secret i ↔ a.Blind i .dashboard := by
  constructor
  · intro hs' _ email token hm
    by_cases hreads : i.reads email = true
    · exact .inl hreads
    · refine .inr ?_
      intro k x hk ht
      obtain ⟨n, -, hn⟩ := h.mail.tokens.users.drawn k x hk
      have htoken : token = some (rand n) := by rw [← ht, hn]
      have hknown : rand n ∈ (a.step rand i .dashboard).known :=
        List.mem_append.mpr (.inl (mem_listed_token.mpr ⟨_, hm, htoken⟩))
      have he := ((h.mail.traced _ (holds_of_listed hm)).address h.mail.tokens hk ht).1
      have he : x.email = email := he
      rw [← he] at hreads
      exact hreads (hs' (rand n) hknown k x hk hn)
  · intro hb t ht k x hk hx
    rcases List.mem_append.mp ht with ht | ht
    · obtain ⟨m, hm, hmt⟩ := mem_listed_token.mp ht
      obtain ⟨-, rfl⟩ := (h.mail.traced m (holds_of_listed hm)).address h.mail.tokens hk (by rw [hx, hmt])
      rcases hb rfl x.email x.token hm with hreads | hused
      · exact hreads
      · exact absurd rfl (hused k x hk)
    · exact hs t ht k x hk hx

/-- As long as the tokens of the others are secret, a request of the intruder leaves them alone. -/
theorem AttackInv.spares (h : AttackInv rand a) {t : Turn} (hg : a.Guessless rand i t) (hs : a.Secret i) :
    a.Spares rand i t := by
  intro e ht hmine k x hk hother
  subst ht
  refine user_kept hk ?_
  rintro ⟨⟨password, hreq⟩, -⟩
  obtain ⟨n, -, hn⟩ := h.mail.tokens.users.drawn k x hk
  have hsent : rand n ∈ e.request.tokens := by simp [hreq, Request.tokens, hn]
  rcases hg e rfl hmine (rand n) hsent with hknown | hno
  · rw [hs (rand n) hknown k x hk hn] at hother
    cases hother
  · exact hno n rfl

end

/-- A new installation, and an intruder who knows no token. -/
structure Attack.New (rand : Nat → String) (a : Attack) : Prop where
  post : a.post.New
  known : ∀ t ∈ a.known, ∀ n, rand n ≠ t

theorem Attack.New.inv {rand : Nat → String} {a : Attack} (h : a.New rand) : AttackInv rand a :=
  ⟨h.post.mailInv, fun t ht n _ => h.known t ht n⟩

/-- **Who can learn a reset token.** From a new installation, with a SecureRandom that never repeats
    and an intruder who does not guess, whatever everybody does: nobody else's token is ever known
    to the intruder exactly when the dashboard is never opened while a reset mail of somebody else
    waits or is among the dead jobs whose token has not been used. As long as it is not, no request of the intruder changes
    the row of anybody else. -/
theorem reset_tokens_secret_iff (rand : Nat → String) (hr : Function.Injective rand) (i : Intruder) (a₀ : Attack)
    (h₀ : a₀.New rand) (turns : List Turn)
    (hg : Along (Attack.step rand i) (fun a t => a.Guessless rand i t) a₀ turns) :
    (Always (Attack.step rand i) (fun a => a.Secret i) a₀ turns ↔
      Along (Attack.step rand i) (fun a t => a.Blind i t) a₀ turns) ∧
    (Along (Attack.step rand i) (fun a t => a.Blind i t) a₀ turns →
      Along (Attack.step rand i) (fun a t => a.Spares rand i t) a₀ turns) := by
  have hsecret₀ : a₀.Secret i := by
    intro t ht k x hk
    exact absurd hk (Table.not_get_of_no_rows h₀.post.world.users)
  have hiff : Always (Attack.step rand i) (fun a => a.Secret i) a₀ turns ↔
      Along (Attack.step rand i) (fun a t => a.Blind i t) a₀ turns := by
    refine run_iff_of (I := AttackInv rand) (fun a t ha hb => ha.step hr hb) ?_ h₀.inv hsecret₀ turns hg
    intro a t ha hb hs
    cases t with
    | act x =>
      refine iff_of_true (ha.secret_act hr hb hs) ?_
      intro hno
      cases hno
    | dashboard => exact ha.secret_dashboard hs
  refine ⟨hiff, ?_⟩
  intro hblind pre t post hturns
  have hinv : AttackInv rand (run (Attack.step rand i) a₀ pre) := by
    refine run_inv_of (fun a t ha hb => ha.step hr hb) h₀.inv pre ?_
    intro pre' t' post' hpre
    exact hg pre' t' (post' ++ t :: post) (by rw [hturns, hpre]; simp)
  exact hinv.spares (hg pre t post hturns) (hiff.mpr hblind pre (t :: post) hturns)

/-- Eve has session 3 and a mailbox, and has seen nothing yet. -/
def eve : Intruder := ⟨fun sid => sid == 3, fun address => address == "eve@example.com"⟩
def Attack.start : Attack := ⟨⟨World.stocked, [], [], []⟩, []⟩

theorem start_new : Attack.start.New tally := ⟨⟨stocked_new, rfl, rfl, rfl⟩, fun _ ht => absurd ht (by simp [Attack.start])⟩

/-- Alice signs up, gets a reset mail and resets her password; the job of the mail was not taken for
    done and is given up later. Eve opens the dashboard afterwards. -/
def peeking : List Turn :=
  [.act (.request (Event.fair 1
      (.usersCreate (some ⟨some "alice", some "alice@example.com", some "password"⟩) none none))),
   .act (.request (Event.fair 1 (.forgotPasswordsCreate (some "alice@example.com")))),
   .act (.work 0 true .again),
   .act (.request (Event.fair 1 (.passwordResetsCreate (some "") (some "new password")))),
   .act (.work 0 false .givenUp), .dashboard]

theorem reset_tokens_secret_iff_small :
    Always (Attack.step tally eve) (fun a => a.Secret eve) Attack.start peeking ∧
      (run (Attack.step tally eve) Attack.start peeking).known = [""] := by
  refine ⟨?_, by decide⟩
  have hg : Along (Attack.step tally eve) (fun a t => a.Guessless tally eve t) Attack.start peeking := by
    intro pre t post hturns e he hmine
    -- the requests are alice's
    have hmem : t ∈ peeking := by simp [hturns]
    simp only [peeking, List.mem_cons, List.not_mem_nil, or_false, he, Turn.act.injEq, Act.request.injEq,
      reduceCtorEq, false_or] at hmem
    rcases hmem with rfl | rfl | rfl <;> cases hmine
  refine (reset_tokens_secret_iff tally tally_injective eve Attack.start start_new peeking hg).1.mpr ?_
  have hact : ∀ (a : Attack) (x : Act), a.Blind eve (.act x) := by
    intro a x h
    cases h
  refine along_cons.mpr ⟨hact _ _, along_cons.mpr ⟨hact _ _, along_cons.mpr ⟨hact _ _, along_cons.mpr
    ⟨hact _ _, along_cons.mpr ⟨hact _ _, along_cons.mpr ⟨?_, along_nil _⟩⟩⟩⟩⟩⟩
  -- the dead job is listed, and its token is nobody's any more
  intro _ email token hm
  obtain ⟨rfl, rfl⟩ := Mail.sendForgotPassword.inj (List.mem_singleton.mp hm)
  refine .inr (Table.forall_rows (P := fun _ (x : User) => x.token ≠ some "").mp ?_)
  decide

/-! The dashboard. -/

/-- Ask for a reset of somebody else's password, read the token off the dashboard, reset the
    password and log in. -/
def ploy (sid : Nat) (env : Env) (victim : User) (password : Param) : List Turn :=
  [.act (.request ⟨sid, .forgotPasswordsCreate victim.email, env⟩),
   .dashboard,
   .act (.request ⟨sid, .passwordResetsCreate victim.token password, env⟩),
   .act (.request ⟨sid, .sessionsCreate victim.email password, env⟩)]

section
variable {rand : Nat → String} {i : Intruder} {a : Attack}

/-- What a forgotten password puts into a job. -/
theorem forgotPasswords_create_of {s : Store} (h : Accounts s) {env : Env} (hd : env.delivers = true)
    (session : Option Nat) {id : Nat} {x : User} (hid : s.users.get id = some x) :
    forgotPasswords.create env s session x.email = ⟨s, session, ⟨.redirectTo .forgotPasswordConfirmation, none,
      some (.sendForgotPassword x.email x.token)⟩⟩ := by
  have hfind : s.users.findBy env.take (fun user => user.email == x.email) = some (id, x) := by
    apply Table.findBy_unique hid (by simp)
    intro j y hj hy
    exact h.emails j id y x hj hid (by simpa using hy)
  simp only [forgotPasswords.create, hfind, hd, if_true]

/-- What every request keeps of the mails, every turn keeps. -/
theorem mailInv_run (hr : Function.Injective rand) (h : MailInv rand a.post) (turns : List Turn) :
    MailInv rand (run (Attack.step rand i) a turns).post := by
  refine run_inv (I := fun a : Attack => MailInv rand a.post) ?_ h turns
  intro a t ha
  cases t with
  | act x => exact ha.step hr x
  | dashboard => exact ha

/-- After the first turn the mail waits, and nothing else has changed. -/
theorem ploy_first (h : MailInv rand a.post) (sid : Nat) {env : Env} (hd : env.delivers = true) {id : Nat} {x : User}
    (hid : a.post.world.store.users.get id = some x) :
    a.post.step rand (.request ⟨sid, .forgotPasswordsCreate x.email, env⟩) =
      { a.post with jobs := a.post.jobs ++ [.sendForgotPassword x.email x.token] } := by
  have ho : a.post.world.outcome rand ⟨sid, .forgotPasswordsCreate x.email, env⟩ = _ :=
    forgotPasswords_create_of h.tokens.app.accounts hd (a.post.world.sessions sid) hid
  have hw : a.post.world.step rand ⟨sid, .forgotPasswordsCreate x.email, env⟩ = a.post.world :=
    step_eq_self (by rw [ho]) (by rw [ho])
  simp only [Post.step, hw, World.response, ho, Option.toList_some]

/-- The token is known when it is sent. -/
theorem ploy_guessless (h : MailInv rand a.post) (sid : Nat) {env : Env} (hd : env.delivers = true) {id : Nat}
    {x : User} (hid : a.post.world.store.users.get id = some x) (password : Param) :
    Along (Attack.step rand i) (fun a t => a.Guessless rand i t) a (ploy sid env x password) := by
  have hnone : ∀ (a : Attack) (t : Turn), (∀ e, t = .act (.request e) → e.request.tokens = []) →
      a.Guessless rand i t := by
    intro a t ht e he _ token htoken
    rw [ht e he] at htoken
    cases htoken
  refine along_cons.mpr ⟨hnone _ _ ?_, along_cons.mpr ⟨hnone _ _ ?_, along_cons.mpr ⟨?_, along_cons.mpr
    ⟨hnone _ _ ?_, along_nil _⟩⟩⟩⟩
  · rintro e ⟨⟩
    rfl
  · rintro e ⟨⟩
  · intro e he _ token htoken
    obtain rfl := Act.request.inj (Turn.act.inj he)
    have htoken : x.token = some token := by simpa [Request.tokens] using htoken
    refine .inl (List.mem_append.mpr (.inl (mem_listed_token.mpr ⟨.sendForgotPassword x.email x.token, ?_, htoken⟩)))
    show _ ∈ (a.post.step rand _).listed
    rw [ploy_first h sid hd hid]
    simp [Post.listed]
  · rintro e ⟨⟩
    rfl

/-- The reset goes through, and then the login. -/
theorem ploy_logs_in (h : MailInv rand a.post) (sid : Nat) {env : Env} (hd : env.delivers = true) {id : Nat}
    {x : User} (hid : a.post.world.store.users.get id = some x) {password : Param}
    (hp : Param.blank password = false) :
    (run (Attack.step rand i) a (ploy sid env x password)).post.world.sessions sid = some id := by
  let w := a.post.world
  let w' := w.step rand ⟨sid, .passwordResetsCreate x.token password, env⟩
  have hfirst : (a.post.step rand (.request ⟨sid, .forgotPasswordsCreate x.email, env⟩)).world = w := by
    rw [ploy_first h sid hd hid]
  have hreset : TookEffect w.store w'.store id x password :=
    (h.tokens.resetOpens hid env (w.sessions sid)).2 password hp
  have hlogin : (w'.outcome rand ⟨sid, .sessionsCreate x.email password, env⟩).session = some id :=
    (hreset.letsIn env (w'.sessions sid)).2
  show (World.step rand (World.step rand (a.post.step rand _).world _) _).sessions sid = some id
  rw [hfirst]
  exact (step_sessions_self _).trans hlogin

end

/-- **Taking an account over.** In every state the system can be in, an intruder who opens the
    dashboard after asking for a reset can log in as any user, with a password of the intruder's
    choice and without guessing a token. -/
theorem dashboard_takeover (rand : Nat → String) (hr : Function.Injective rand) (i : Intruder) (a₀ : Attack)
    (h₀ : a₀.post.New) (turns : List Turn) (sid : Nat) (env : Env) (hd : env.delivers = true) (id : Nat) (x : User)
    (hid : (run (Attack.step rand i) a₀ turns).post.world.store.users.get id = some x) (password : Param)
    (hp : Param.blank password = false) :
    let a := run (Attack.step rand i) a₀ turns
    Along (Attack.step rand i) (fun a t => a.Guessless rand i t) a (ploy sid env x password) ∧
      (run (Attack.step rand i) a (ploy sid env x password)).post.world.sessions sid = some id := by
  intro a
  have h : MailInv rand a.post := mailInv_run hr h₀.mailInv turns
  exact ⟨ploy_guessless h sid hd hid password, ploy_logs_in h sid hd hid hp⟩

theorem dashboard_takeover_small :
    (run (Attack.step tally eve) (run (Attack.step tally eve) Attack.start peeking)
      (ploy 3 .fair ⟨some "alice", some "alice@example.com", some ⟨0, "new password"⟩, some "a", none⟩
        (some "swordfish"))).post.world.sessions 3 = some 1 :=
  (dashboard_takeover tally tally_injective eve Attack.start start_new.post peeking 3 .fair rfl 1 _ (by decide)
    (some "swordfish") (by decide)).2

end Myflix
