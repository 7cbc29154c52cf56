import Myflix.Lib.Fresh
import Myflix.FollowGraph

/- Signing up with an invitation, from the visitor's side. The token travels from
   the link to the page (`users#new`), through the hidden field of its form into
   `users#create`, and should survive the page that is rendered again after a
   failed attempt. A `Visit` is the world together with the token in the form last
   rendered; between two attempts anybody may make requests.

   What is proved:
     1. `invitation_survives_iff`: the visitor who signs up in the end and the
        inviter follow each other exactly when no attempt failed before. The form
        that `users#create` renders has lost the token (`invitation_lost`). -/
namespace Myflix
open Relational Rails Transition

/-! Stored invitations. -/

/-- Inviters are stored, the relationships form a graph on the users, and every invitation has
    a token of its own. -/
structure InvitationInv (rand : Nat → String) (s : Store) : Prop where
  inviters : InvitersStored s
  graph : FollowGraph s
  tokens : Issued rand Invitation.token s.drawn s.invitations

section
variable {rand : Nat → String} {env : Env} {session : Option Nat} {s s' : Store} {req : Request}

theorem InvitationInv.effect (hr : Function.Injective rand) (h : InvitationInv rand s)
    (he : Effect rand env session s req s') : InvitationInv rand s' where
  inviters := h.inviters.effect he
  graph := h.graph.effect h.inviters he
  tokens := by
    have hd := he.drawn_le
    rcases he.invitations_cases with hi | ⟨u, user, params, -, rfl⟩
    · rw [hi]
      exact h.tokens.mono hd
    · exact h.tokens.insert hr rfl

/-- An invitation stays as it is. -/
theorem Effect.invitation_kept (he : Effect rand env session s req s') {k : Nat} {i : Invitation}
    (hk : s.invitations.get k = some i) : s'.invitations.get k = some i := by
  rcases he.invitations_cases with hi | ⟨u, user, params, -, rfl⟩
  · rw [hi]
    exact hk
  · exact Table.get_insert_of_some _ hk

/-- A missing token finds no invitation. -/
theorem InvitationInv.find_none (h : InvitationInv rand s) (env : Env) : findInvitation env s none = none := by
  apply Table.findBy_none.mpr
  intro k i hk
  obtain ⟨n, -, hn⟩ := h.tokens.drawn k i hk
  rw [hn]
  rfl

/-- The token of an invitation finds that invitation. -/
theorem InvitationInv.find_token (h : InvitationInv rand s) (env : Env) {k : Nat} {i : Invitation}
    (hk : s.invitations.get k = some i) : findInvitation env s i.token = some (k, i) := by
  apply Table.findBy_unique hk (by simp)
  intro j i' hj ht
  exact h.tokens.distinct j k i' i hj hk (by simpa using ht)

theorem follows_iff {u leader : Nat} :
    Myflix.follows s u leader = true ↔
      ∃ k r, s.relationships.get k = some r ∧ r.followerId = some u ∧ r.leaderId = some leader := by
  simp only [Myflix.follows, List.any_eq_true, Bool.and_eq_true, beq_iff_eq]
  refine ⟨?_, ?_⟩
  · intro h
    obtain ⟨r, hr, hf, hl⟩ := h
    exact ⟨r.1, r.2, Table.get_eq_some.mpr hr, hf, hl⟩
  · intro h
    obtain ⟨k, r, hk, hf, hl⟩ := h
    exact ⟨(k, r), Table.get_eq_some.mp hk, hf, hl⟩

/-- Signed up with the token of an invitation: both follow each other. -/
theorem InvitationInv.follows_link (h : InvitationInv rand s) (u : NewUser) {k : Nat} {i : Invitation}
    (hk : s.invitations.get k = some i) :
    Myflix.follows (s.signedUp rand env u i.token) s.users.next i.inviterId = true ∧
      Myflix.follows (s.signedUp rand env u i.token) i.inviterId s.users.next = true := by
  rw [signedUp_link u (h.find_token env hk) (h.inviters k i hk)]
  simp [Myflix.follows, Store.link, Store.addUser]

/-- Signed up without a token: nobody follows the new user. -/
theorem InvitationInv.follows_nobody (h : InvitationInv rand s) (u : NewUser) (leader : Nat) :
    Myflix.follows (s.signedUp rand env u none) s.users.next leader = false := by
  by_contra hf
  obtain ⟨k, r, hk, hru, -⟩ := follows_iff.mp (by simpa using hf)
  rw [signedUp_relationships, h.find_none env] at hk
  exact (h.graph.absent (Table.get_next _) hk).1 hru

end

/-! The visit. -/

/-- What the visitor submits, and what the request gets from outside. -/
structure Attempt where
  user : UserParams
  stripeToken : Param
  env : Env

/-- The world, and the token in the hidden field of the form last rendered to the visitor. -/
structure Visit where
  world : World
  form : Param

/-- The visitor submits the form, or somebody makes some request. -/
inductive Move where
  | submits (a : Attempt)
  | others (e : Event)

/-- The form the visitor has after a response: the one it renders, or the one from before. -/
def lastForm (old : Param) (r : Response) : Param :=
  match r.reply with
  | .render (.usersNew _ token) => token
  | _ => old

namespace Visit

/-- Opening the registration page with a token. -/
def opens (rand : Nat → String) (sid : Nat) (w : World) (env : Env) (token : Param) : Visit :=
  let e : Event := ⟨sid, .usersNew token, env⟩
  ⟨w.step rand e, lastForm none (w.response rand e)⟩

/-- The request an attempt makes: the form's data, and the token the form contains. -/
def submission (sid : Nat) (v : Visit) (a : Attempt) : Event :=
  ⟨sid, .usersCreate (some a.user) a.stripeToken v.form, a.env⟩

/-- What the visitor gets back. -/
def response (rand : Nat → String) (sid : Nat) (v : Visit) (a : Attempt) : Response :=
  v.world.response rand (v.submission sid a)

def step (rand : Nat → String) (sid : Nat) (v : Visit) : Move → Visit
  | .submits a => ⟨v.world.step rand (v.submission sid a), lastForm v.form (v.response rand sid a)⟩
  | .others e => ⟨v.world.step rand e, v.form⟩

end Visit

/-- The attempt fails: the form is rendered again. -/
def Fails (rand : Nat → String) (sid : Nat) (v : Visit) (a : Attempt) : Prop :=
  ∃ email token, (v.response rand sid a).reply = .render (.usersNew email token)

/-- The attempt reports success. -/
def Succeeds (rand : Nat → String) (sid : Nat) (v : Visit) (a : Attempt) : Prop :=
  (v.response rand sid a).reply = .redirectTo .login

section
variable {rand : Nat → String} {sid : Nat}

/-- Every move is a request, so what requests keep, a visit keeps. -/
theorem visit_inv {I : Store → Prop}
    (hI : ∀ (w : World) (e : Event), I w.store → I (w.step rand e).store) {v : Visit} (h0 : I v.world.store)
    (ms : List Move) : I (run (Visit.step rand sid) v ms).world.store := by
  refine run_inv (I := fun v : Visit => I v.world.store) ?_ h0 ms
  intro v m hv
  cases m with
  | submits a => exact hI _ _ hv
  | others e => exact hI _ _ hv

/-- The form that `users#create` renders has no token. -/
theorem fails_form {v : Visit} {a : Attempt} (h : Fails rand sid v a) :
    (v.step rand sid (.submits a)).form = none := by
  obtain ⟨email, token, h⟩ := h
  have ho : v.response rand sid a = (users.create rand a.env v.world.store (v.world.sessions sid) (some a.user)
      a.stripeToken v.form).response := rfl
  rw [ho, users_create_eq] at h
  show lastForm v.form (v.response rand sid a) = none
  rw [ho, users_create_eq]
  -- both ways to fail render the form without `@invitation`
  split at h
  · next hv =>
    rw [if_pos hv]
    split at h
    · split at h
      · split at h <;> cases h
      · cases h
    · next hc =>
      rw [if_neg hc]
      rfl
  · next hv =>
    rw [if_neg hv]
    rfl

/-- After failed attempts the form has no token; before the first one it is as it was. -/
theorem form_after {v : Visit} {ms : List Move}
    (h : Along (Visit.step rand sid) (fun v m => ∀ a, m = .submits a → Fails rand sid v a) v ms) :
    ((∀ a, .submits a ∉ ms) ∧ (run (Visit.step rand sid) v ms).form = v.form) ∨
      ((∃ a, .submits a ∈ ms) ∧ (run (Visit.step rand sid) v ms).form = none) := by
  have hkeep : ∀ (v : Visit) (m : Move), ¬ (∃ a, m = .submits a) → (v.step rand sid m).form = v.form := by
    intro v m hm
    cases m with
    | submits a => exact absurd ⟨a, rfl⟩ hm
    | others e => rfl
  rcases run_obs (fun v : Visit => v.form) (fun _ m => ∃ a, m = .submits a) hkeep v ms
    with ⟨hform, hno⟩ | ⟨pre, m, post, rfl, ⟨a, rfl⟩, hform, -⟩
  · refine .inl ⟨?_, hform⟩
    intro a ha
    obtain ⟨pre, post, rfl⟩ := List.append_of_mem ha
    exact hno pre _ post rfl ⟨a, rfl⟩
  · refine .inr ⟨⟨a, by simp⟩, ?_⟩
    rw [hform]
    exact fails_form (h pre _ post rfl a rfl)

/-- A successful attempt signs the user up with the token of the form. -/
theorem succeeds_store {v : Visit} {a : Attempt} (h : Succeeds rand sid v a) :
    (v.step rand sid (.submits a)).world.store =
      v.world.store.signedUp rand a.env (.new a.user a.env.salt) v.form := by
  have h : (handle rand a.env v.world.store (v.world.sessions sid)
      (.usersCreate (some a.user) a.stripeToken v.form)).response.reply = .redirectTo .login := h
  obtain ⟨p, hp, hs⟩ := users_create_success h
  simp only [Option.some.injEq] at hp
  subst hp
  exact hs

/-- The form of the page opened with the token of an invitation has that token. -/
theorem opens_form {x : World} (hx : InvitationInv rand x.store) (env : Env) {k : Nat} {i : Invitation}
    (hk : x.store.invitations.get k = some i) : (Visit.opens rand sid x env i.token).form = i.token := by
  show lastForm none (users.new env x.store (x.sessions sid) i.token).response = i.token
  rw [users.new, hx.find_token env hk]
  rfl

/-- Whatever the moves, the invariant and the invitation are there afterwards. -/
theorem visit_invitation (hr : Function.Injective rand) {x : World} (hx : InvitationInv rand x.store) (env : Env)
    {k : Nat} {i : Invitation} (hk : x.store.invitations.get k = some i) (ms : List Move) :
    InvitationInv rand (run (Visit.step rand sid) (Visit.opens rand sid x env i.token) ms).world.store ∧
      (run (Visit.step rand sid) (Visit.opens rand sid x env i.token) ms).world.store.invitations.get k = some i := by
  have hstep : ∀ (w : World) (e : Event), InvitationInv rand w.store ∧ w.store.invitations.get k = some i →
      InvitationInv rand (w.step rand e).store ∧ (w.step rand e).store.invitations.get k = some i := by
    intro w e hw
    have he := step_effect rand w e
    exact ⟨hw.1.effect hr he, he.invitation_kept hw.2⟩
  exact visit_inv (I := fun s => InvitationInv rand s ∧ s.invitations.get k = some i) hstep
    (hstep x ⟨sid, .usersNew i.token, env⟩ ⟨hx, hk⟩) ms

end

/-- **When an invitation survives.** In every state reached from a database without invitations
    and relationships, with a SecureRandom that never repeats, a visitor opens the registration
    page with the token of a stored invitation and submits the form last rendered, any number of
    times and with anybody making requests in between, until an attempt succeeds after others
    that failed. The visitor is then a new user, and follows the inviter and is followed by the
    inviter exactly when no attempt failed before. -/
theorem invitation_survives_iff (rand : Nat → String) (hr : Function.Injective rand) (w : World)
    (hi : w.store.invitations.rows = []) (hrel : w.store.relationships.rows = []) (es : List Event)
    (sid : Nat) (env : Env) (k : Nat) (i : Invitation)
    (hk : (run (World.step rand) w es).store.invitations.get k = some i) (ms : List Move)
    (hfails : Along (Visit.step rand sid) (fun v m => ∀ a, m = .submits a → Fails rand sid v a)
      (Visit.opens rand sid (run (World.step rand) w es) env i.token) ms)
    (a : Attempt)
    (hok : Succeeds rand sid
      (run (Visit.step rand sid) (Visit.opens rand sid (run (World.step rand) w es) env i.token) ms) a) :
    let v := run (Visit.step rand sid) (Visit.opens rand sid (run (World.step rand) w es) env i.token) ms
    let s := (v.step rand sid (.submits a)).world.store
    let id := v.world.store.users.next
    v.world.store.users.get id = none ∧ (s.users.get id).isSome ∧
      (follows s id i.inviterId = true ∧ follows s i.inviterId id = true ↔ ∀ a', .submits a' ∉ ms) := by
  intro v s id
  have hx : InvitationInv rand (run (World.step rand) w es).store := by
    refine run_inv (I := fun w : World => InvitationInv rand w.store)
      (fun w e hw => hw.effect hr (step_effect rand w e)) ⟨?_, ?_, issued_of_no_rows hi⟩ es
    · intro j i' hj
      exact absurd hj (Table.not_get_of_no_rows hi)
    · exact followGraph_of_no_relationships hrel
  obtain ⟨hv, hvk⟩ : InvitationInv rand v.world.store ∧ v.world.store.invitations.get k = some i :=
    visit_invitation hr hx env hk ms
  have hs : s = v.world.store.signedUp rand a.env (.new a.user a.env.salt) v.form := succeeds_store hok
  refine ⟨Table.get_next _, ?_, ?_⟩
  · rw [hs, signedUp_users]
    simp [id]
  · rcases form_after hfails with ⟨hno, hform⟩ | ⟨⟨a', ha'⟩, hform⟩
    · have hform : v.form = i.token := hform.trans (opens_form hx env hk)
      rw [hs, hform]
      exact ⟨fun _ => hno, fun _ => hv.follows_link _ hvk⟩
    · have hform : v.form = none := hform
      rw [hs, hform, hv.follows_nobody]
      refine ⟨?_, fun hno => absurd ha' (hno a')⟩
      intro h
      cases h.1

/-- Alice invites carol. -/
def carolInvited : World :=
  run (World.step tally) World.small
    [Event.fair 1 (.invitationsCreate (some ⟨some "Carol", some "carol@example.com", some "Join!"⟩))]

/-- A complete form, and one with a password that is too short. -/
def goodForm : Attempt := ⟨⟨some "carol", some "carol@example.com", some "password"⟩, none, .fair⟩
def badForm : Attempt := ⟨⟨some "carol", some "carol@example.com", some "pass"⟩, none, .fair⟩

theorem invitation_survives_iff_small :
    follows ((Visit.opens tally 3 carolInvited .fair (some "")).step tally 3 (.submits goodForm)).world.store 3 1 =
      true :=
  ((invitation_survives_iff tally tally_injective World.small rfl rfl
    [Event.fair 1 (.invitationsCreate (some ⟨some "Carol", some "carol@example.com", some "Join!"⟩))] 3 .fair 1
    ⟨some "Carol", some "carol@example.com", 1, some "", some "Join!"⟩ (by decide) [] (along_nil _) goodForm
    (by unfold Succeeds; decide)).2.2.mpr (by simp)).1

/-- The password is too short the first time; the attempt fails, the next one succeeds, and
    carol and alice do not follow each other. -/
theorem invitation_lost :
    (Visit.opens tally 3 carolInvited .fair (some "")).form = some "" ∧
    Fails tally 3 (Visit.opens tally 3 carolInvited .fair (some "")) badForm ∧
    Succeeds tally 3 ((Visit.opens tally 3 carolInvited .fair (some "")).step tally 3 (.submits badForm)) goodForm ∧
    let s := (run (Visit.step tally 3) (Visit.opens tally 3 carolInvited .fair (some ""))
      [.submits badForm, .submits goodForm]).world.store
    s.users.get 3 = some ⟨some "carol", some "carol@example.com", some ⟨0, "password"⟩, some "a", none⟩ ∧
      s.relationships.rows = [] ∧ ¬ (follows s 3 1 = true ∧ follows s 1 3 = true) := by
  refine ⟨by decide, ⟨some "carol@example.com", none, by decide⟩, ?_, by decide, by decide, by decide⟩
  unfold Succeeds
  decide

end Myflix
