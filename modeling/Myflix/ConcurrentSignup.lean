import Myflix.Lib.Pool
import Myflix.Accounts
import Myflix.FollowGraph

/- Sign-ups that overlap. Production runs several workers, and a sign-up talks to
   PostgreSQL and to Stripe many times. Each of these is one step of `advance`, in
   the order of `UserSignup#sign_up`: the validity check, the charge, the validation
   inside `save`, the INSERT, the search for the invitation, the two
   `Relationship.create`s and the mail. Between two steps of one request any other
   request may take any of its own. A request that runs alone does what `signUp` does
   (`signUp_alone`).

   Rails answers a SELECT a request repeats from the query cache of the request, until
   the request writes something. The uniqueness queries inside `save` repeat those of
   `valid?`, and nothing is written between the two: with the cache, which is on by
   default, the second validation sees no other request (`cached`). Without it the
   queries go to the database again. -/
namespace Myflix
open Relational Rails Transition Interleaving

/-! Requests. -/

/-- What `sign_up` is called with. -/
structure SignupRequest where
  user : NewUser
  stripeToken : Param
  invitationToken : Param

/-- How far a request has come; `id` is the id of `@user`, nil while it is not saved. -/
inductive Phase where
  | validating
  | charging
  | saving
  | inserting
  | searching (id : Option Nat)
  | following (id : Option Nat) (invitation : Invitation)
  | leading (id : Option Nat) (inviter : Option Nat)
  | mailing (id : Option Nat)
  | finished (id : Option Nat) (result : Except Exception SignupResult)

/-- What the requests share: the database, and the charges Stripe has accepted. -/
structure Ledger (ι : Type) where
  store : Store
  charges : List ι

section
variable {ι : Type}

/-- One step of request `i`. -/
def advance (cached : Bool) (rand : Nat → String) (job : ι → SignupRequest) (i : ι) (env : Env) (l : Ledger ι) :
    Phase → Ledger ι × Phase
  | .validating =>
    (l, if (job i).user.valid l.store.users then .charging else .finished none (.ok .invalid))
  | .charging =>
    let charge := signupCharge env (job i).stripeToken
    if charge.successful then ({ l with charges := l.charges ++ [i] }, .saving)
    else (l, .finished none (.ok (.declined charge)))
  -- the cached answers are those with which the user was valid; the result of `save` is ignored,
  -- and without a row the user keeps no id
  | .saving => (l, if cached || (job i).user.valid l.store.users then .inserting else .searching none)
  | .inserting =>
    match (job i).user.insert rand l.store with
    | .error e => (l, .finished none (.error e))
    | .ok (s, id) => ({ l with store := s }, .searching (some id))
  | .searching id =>
    match findInvitation env l.store (job i).invitationToken with
    | none => (l, .mailing id)
    | some (_, invitation) => (l, .following id invitation)
  | .following id invitation =>
    let inviter := invitation.inviter l.store
    match followInviter rand l.store (job i).user id inviter with
    | .error e => (l, .finished id (.error e))
    | .ok (s, id) => ({ l with store := s }, .leading id inviter)
  | .leading id inviter =>
    match leadInviter rand l.store (job i).user id inviter with
    | .error e => (l, .finished id (.error e))
    | .ok (s, id) => ({ l with store := s }, .mailing id)
  | .mailing id => (l, .finished id (welcome env))
  | .finished id result => (l, .finished id result)

/-- All the requests that are under way. -/
abbrev Signups (ι : Type) := Pool ι (Ledger ι) Phase

/-- Nobody has started, nothing is charged. -/
def Signups.start (s : Store) : Signups ι := ⟨⟨s, []⟩, fun _ => .validating⟩

/-- The id a request has for its user. -/
def Phase.userId : Phase → Option Nat
  | .searching id => id
  | .following id _ => id
  | .leading id _ => id
  | .mailing id => id
  | .finished id _ => id
  | _ => none

def Phase.done : Phase → Bool
  | .finished _ _ => true
  | _ => false

/-- `result.successful?` of a request that has finished. -/
def Phase.successful : Phase → Bool
  | .finished _ (.ok result) => result.successful
  | _ => false

/-! Single steps. -/

section
variable {cached : Bool} {rand : Nat → String} {job : ι → SignupRequest} {i : ι} {env : Env} {l : Ledger ι}

theorem advance_valid (h : (job i).user.valid l.store.users = true) :
    advance cached rand job i env l .validating = (l, .charging) := by simp only [advance, h, if_true]

theorem advance_invalid (h : (job i).user.valid l.store.users ≠ true) :
    advance cached rand job i env l .validating = (l, .finished none (.ok .invalid)) := by
  simp only [advance, h]; rfl

theorem advance_charged (h : (signupCharge env (job i).stripeToken).successful = true) :
    advance cached rand job i env l .charging = ({ l with charges := l.charges ++ [i] }, .saving) := by
  simp only [advance, h, if_true]

theorem advance_declined (h : (signupCharge env (job i).stripeToken).successful ≠ true) :
    advance cached rand job i env l .charging =
      (l, .finished none (.ok (.declined (signupCharge env (job i).stripeToken)))) := by
  simp only [advance, h]; rfl

theorem advance_saved (h : (cached || (job i).user.valid l.store.users) = true) :
    advance cached rand job i env l .saving = (l, .inserting) := by simp only [advance, h, if_true]

theorem advance_lost (h : (cached || (job i).user.valid l.store.users) ≠ true) :
    advance cached rand job i env l .saving = (l, .searching none) := by
  simp only [advance, h]; rfl

theorem advance_inserted (h : (job i).user.fits = true) :
    advance cached rand job i env l .inserting =
      ({ l with store := l.store.addUser rand (job i).user }, .searching (some l.store.users.next)) := by
  have hi : (job i).user.insert rand l.store = .ok (l.store.addUser rand (job i).user, l.store.users.next) :=
    if_pos h
  simp only [advance, hi]

theorem advance_refused (h : (job i).user.fits ≠ true) :
    advance cached rand job i env l .inserting = (l, .finished none (.error .statementInvalid)) := by
  have hi : (job i).user.insert rand l.store = .error .statementInvalid := if_neg h
  simp only [advance, hi]

theorem advance_followed {id id' : Option Nat} {invitation : Invitation} {s : Store}
    (h : followInviter rand l.store (job i).user id (invitation.inviter l.store) = .ok (s, id')) :
    advance cached rand job i env l (.following id invitation) =
      ({ l with store := s }, .leading id' (invitation.inviter l.store)) := by simp only [advance, h]

theorem advance_led {id id' inviter : Option Nat} {s : Store}
    (h : leadInviter rand l.store (job i).user id inviter = .ok (s, id')) :
    advance cached rand job i env l (.leading id inviter) = ({ l with store := s }, .mailing id') := by
  simp only [advance, h]

theorem advance_follow_raises {id : Option Nat} {invitation : Invitation} {e : Exception}
    (h : followInviter rand l.store (job i).user id (invitation.inviter l.store) = .error e) :
    advance cached rand job i env l (.following id invitation) = (l, .finished id (.error e)) := by
  simp only [advance, h]

theorem advance_lead_raises {id inviter : Option Nat} {e : Exception}
    (h : leadInviter rand l.store (job i).user id inviter = .error e) :
    advance cached rand job i env l (.leading id inviter) = (l, .finished id (.error e)) := by simp only [advance, h]

/-! One request by itself. -/

theorem advance_finished (id : Option Nat) (result : Except Exception SignupResult) (envs : List Env) :
    envs.foldl (fun r e => advance cached rand job i e r.1 r.2) (l, .finished id result) = (l, .finished id result) := by
  induction envs with
  | nil => rfl
  | cons e envs ih => exact ih

/-- From the search on, a request whose user is saved runs to its end in four steps. -/
theorem advance_linkAndMail (id : Nat) :
    (List.replicate 4 env).foldl (fun r e => advance cached rand job i e r.1 r.2) (l, .searching (some id)) =
      ({ l with store := (linkAndMail rand env l.store (job i).user (some id) (job i).invitationToken).1 },
        .finished (some id)
          (linkAndMail rand env l.store (job i).user (some id) (job i).invitationToken).2) := by
  simp only [List.replicate, List.foldl_cons, List.foldl_nil, advance, linkAndMail]
  cases findInvitation env l.store (job i).invitationToken with
  | none => rfl
  | some r => rfl

/-- **A request by itself is `sign_up`.** Eight steps take it to its end. -/
theorem advance_signUp (cached : Bool) (rand : Nat → String) (job : ι → SignupRequest) (i : ι) (env : Env) (l : Ledger ι) :
    ∃ cs id, (List.replicate 8 env).foldl (fun r e => advance cached rand job i e r.1 r.2) (l, .validating) =
      (⟨(signUp rand env l.store (job i).user (job i).stripeToken (job i).invitationToken).1, cs⟩,
        .finished id (signUp rand env l.store (job i).user (job i).stripeToken (job i).invitationToken).2) := by
  have h8 : List.replicate 8 env = env :: env :: env :: env :: List.replicate 4 env := rfl
  rw [h8]
  simp only [List.foldl_cons]
  by_cases hv : (job i).user.valid l.store.users = true
  · by_cases hc : (signupCharge env (job i).stripeToken).successful = true
    · have hsave := NewUser.save_eq rand l.store (job i).user hv
      have hstill : (cached || (job i).user.valid l.store.users) = true := by rw [hv, Bool.or_true]
      by_cases hf : (job i).user.fits = true
      · simp only [advance_valid hv, advance_charged hc, advance_saved (l := ⟨l.store, l.charges ++ [i]⟩) hstill,
          advance_inserted (l := ⟨l.store, l.charges ++ [i]⟩) hf, advance_linkAndMail]
        simp only [signUp, hv, hc, hsave, hf, if_true]
        exact ⟨_, _, rfl⟩
      · simp only [advance_valid hv, advance_charged hc, advance_saved (l := ⟨l.store, l.charges ++ [i]⟩) hstill,
          advance_refused (l := ⟨l.store, l.charges ++ [i]⟩) hf, advance_finished]
        simp only [signUp, hv, hc, hsave, hf, if_true]
        exact ⟨_, _, rfl⟩
    · simp only [advance_valid hv, advance_declined hc]
      simp only [signUp, hv, hc, if_true]
      exact ⟨_, _, advance_finished _ _ _⟩
  · simp only [advance_invalid hv]
    simp only [signUp, hv]
    exact ⟨_, _, advance_finished _ _ _⟩

/-- In a pool too, whatever phases the others are in. -/
theorem signUp_alone [DecidableEq ι] (cached : Bool) (rand : Nat → String) (job : ι → SignupRequest) (c : Signups ι) (i : ι)
    (env : Env) (h : c.phase i = .validating) :
    let c' := run (Pool.step (advance cached rand job)) c ((List.replicate 8 env).map (fun e => (i, e)))
    let r := signUp rand env c.shared.store (job i).user (job i).stripeToken (job i).invitationToken
    c'.shared.store = r.1 ∧ ∃ id, c'.phase i = .finished id r.2 := by
  obtain ⟨hs, hp⟩ := Pool.run_alone (advance cached rand job) c i (List.replicate 8 env)
  obtain ⟨cs, id, he⟩ := advance_signUp cached rand job i env c.shared
  rw [h, he] at hs hp
  exact ⟨congrArg Ledger.store hs, id, hp⟩

end

/-! What every step keeps. -/

/-- No user is lost or changed. -/
def UsersKept (s s' : Store) : Prop := ∀ k x, s.users.get k = some x → s'.users.get k = some x

theorem UsersKept.of_eq {s s' : Store} (h : s'.users = s.users) : UsersKept s s' := by
  intro k x hk
  rw [h]
  exact hk

theorem UsersKept.of_insert {s s' : Store} {row : User} (h : s'.users = s.users.insert row) : UsersKept s s' := by
  intro k x hk
  rw [h]
  exact Table.get_insert_of_some _ hk

theorem UsersKept.trans {s₁ s₂ s₃ : Store} (h : UsersKept s₁ s₂) (h' : UsersKept s₂ s₃) : UsersKept s₁ s₃ :=
  fun k x hk => h' k x (h k x hk)

theorem UsersKept.isSome {s s' : Store} (h : UsersKept s s') {k : Nat} (hk : (s.users.get k).isSome) :
    (s'.users.get k).isSome := by
  obtain ⟨x, hx⟩ := Option.isSome_iff_exists.mp hk
  rw [h k x hx]
  rfl

/-- What is taken stays taken: a user that is not valid does not become valid. -/
theorem UsersKept.invalid {s s' : Store} (h : UsersKept s s') {u : NewUser} (hu : u.valid s.users ≠ true) :
    u.valid s'.users ≠ true := by
  intro hv
  apply hu
  simp only [NewUser.valid, Bool.and_eq_true, identityValid_iff, taken_eq_false] at hv ⊢
  obtain ⟨⟨⟨hb, ht⟩, ⟨hb', ht'⟩⟩, hp⟩ := hv
  exact ⟨⟨⟨hb, fun k x hk => ht k x (h k x hk)⟩, ⟨hb', fun k x hk => ht' k x (h k x hk)⟩⟩, hp⟩

/-- A user who is no longer valid is not saved with the relationship either. -/
theorem relate_unsaved (rand : Nat → String) {s : Store} {u : NewUser} (edge : Option Nat → Relationship)
    (hv : u.valid s.users ≠ true) : relate rand s u none edge =
      .ok ({ s with relationships := s.relationships.insert (edge none) }, none) := by
  have hsave : u.save rand s = .ok (s, none) := by
    simp only [NewUser.save, hv]
    rfl
  simp only [relate, hsave]

/-- `Relationship.create` with the new user at one end, by the id the user has before and after. -/
theorem relate_cases {rand : Nat → String} {s s' : Store} {u : NewUser} {id id' : Option Nat}
    {edge : Option Nat → Relationship} (h : relate rand s u id edge = .ok (s', id')) :
    (∃ k, id = some k ∧ id' = some k ∧
      s' = { s with relationships := s.relationships.insert (edge (some k)) }) ∨
    (id = none ∧ u.valid s.users = true ∧ u.fits = true ∧ id' = some s.users.next ∧ s' = { s.addUser rand u with
      relationships := s.relationships.insert (edge (some s.users.next)) }) ∨
    (id = none ∧ u.valid s.users ≠ true ∧ id' = none ∧
      s' = { s with relationships := s.relationships.insert (edge none) }) := by
  cases id with
  | some k =>
    simp only [relate, Except.ok.injEq, Prod.mk.injEq] at h
    exact .inl ⟨k, rfl, h.2.symm, h.1.symm⟩
  | none =>
    by_cases hv : u.valid s.users = true
    · simp only [relate, NewUser.save_eq rand s u hv] at h
      by_cases hf : u.fits = true
      · simp only [hf, if_true, Except.ok.injEq, Prod.mk.injEq] at h
        exact .inr (.inl ⟨rfl, hv, hf, h.2.symm, h.1.symm⟩)
      · simp only [hf] at h
        cases h
    · rw [relate_unsaved rand edge hv, Except.ok.injEq, Prod.mk.injEq] at h
      exact .inr (.inr ⟨rfl, hv, h.2.symm, h.1.symm⟩)

theorem relate_kept {rand : Nat → String} {s s' : Store} {u : NewUser} {id id' : Option Nat}
    {edge : Option Nat → Relationship} (h : relate rand s u id edge = .ok (s', id')) : UsersKept s s' := by
  rcases relate_cases h with ⟨k, -, -, rfl⟩ | ⟨-, -, -, -, rfl⟩ | ⟨-, -, -, rfl⟩
  · exact UsersKept.of_eq rfl
  · exact UsersKept.of_insert rfl
  · exact UsersKept.of_eq rfl

/-- The id a user has after a `Relationship.create` is that of a stored row. -/
theorem relate_stored {rand : Nat → String} {s s' : Store} {u : NewUser} {id id' : Option Nat}
    {edge : Option Nat → Relationship} (h : relate rand s u id edge = .ok (s', id'))
    (hid : ∀ k, id = some k → (s.users.get k).isSome) : ∀ k, id' = some k → (s'.users.get k).isSome := by
  intro k hk
  rcases relate_cases h with ⟨j, hj, hj', rfl⟩ | ⟨-, -, -, hj', rfl⟩ | ⟨-, -, hj', -⟩
  · rw [hj', Option.some.injEq] at hk
    exact hid k (by rw [hj, hk])
  · rw [hj', Option.some.injEq] at hk
    rw [← hk]
    simp [Store.addUser]
  · rw [hj'] at hk
    cases hk

end

end Myflix
