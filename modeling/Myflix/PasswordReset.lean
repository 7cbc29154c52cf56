import Myflix.Accounts

/- A password reset and the login after it. `PasswordResets#create` reports success
   whenever it finds the user of the token: `password=` ignores a blank password and
   the result of `save` is dropped. The save does go through in every reachable
   state (`Accounts`), so the report is true exactly when the password was not
   blank (`reset_takes_effect_iff`); with a blank one the old password stays in
   force (`reset_without_effect`). -/
namespace Myflix
open Relational Rails Transition

/-! Logging in. -/

/-- `Sessions#create` lets the user in. -/
def LetsIn (env : Env) (s : Store) (session : Option Nat) (email password : Param) (id : Nat) : Prop :=
  (sessions.create env s session email password).response.reply = .redirectTo .home ∧
    (sessions.create env s session email password).session = some id

instance (env : Env) (s : Store) (session : Option Nat) (email password : Param) (id : Nat) :
    Decidable (LetsIn env s session email password id) := by
  unfold LetsIn; infer_instance

/-- With distinct emails, the login asks the user of the email. -/
theorem Accounts.letsIn_iff {s : Store} (h : Accounts s) {id : Nat} {x : User} (hid : s.users.get id = some x)
    (env : Env) (session : Option Nat) (password : Param) :
    LetsIn env s session x.email password id ↔ x.authenticate password = .ok true := by
  have hfind : s.users.findBy env.take (fun user => user.email == x.email) = some (id, x) := by
    apply Table.findBy_unique hid
    · exact beq_self_eq_true x.email
    · intro j b hj hb
      exact h.emails j id b x hj hid (by simpa using hb)
  unfold LetsIn sessions.create
  rw [hfind]
  simp only
  split
  · next e he => simp [he, reply, raised]
  · next he => simp [he, reply, redirectTo]
  · next he => simp [he, reply, render]

/-! Stored passwords. -/

/-- Every user has a password, and it is not blank. -/
def SecretsPresent (s : Store) : Prop :=
  ∀ k x, s.users.get k = some x → ∃ d, x.passwordDigest = some d ∧ Rails.blank d.secret = false

section
variable {rand : Nat → String} {env : Env} {session : Option Nat} {s s' : Store} {req : Request}

theorem some_of_not_blank {p : Param} (h : Param.blank p = false) : ∃ t, p = some t ∧ Rails.blank t = false := by
  cases p with
  | none => cases h
  | some t => exact ⟨t, rfl, h⟩

theorem setPassword_of_blank {salt : Nat} {old : Option Digest} {password : Param}
    (h : Param.blank password = true) : setPassword salt old password = old := by
  rw [setPassword, if_pos h]

theorem setPassword_some {salt : Nat} {old : Option Digest} {p : String} (h : Rails.blank p = false) :
    setPassword salt old (some p) = some ⟨salt, p⟩ := by
  simp [setPassword, Param.blank, h]

/-- `password=` leaves a user with a password, whatever it is given. -/
theorem setPassword_present (salt : Nat) {old : Option Digest}
    (h : ∃ d, old = some d ∧ Rails.blank d.secret = false) (password : Param) :
    ∃ d, setPassword salt old password = some d ∧ Rails.blank d.secret = false := by
  cases hb : Param.blank password with
  | true =>
    rw [setPassword_of_blank hb]
    exact h
  | false =>
    obtain ⟨p, rfl, hp⟩ := some_of_not_blank hb
    exact ⟨⟨salt, p⟩, setPassword_some hp, hp⟩

theorem SecretsPresent.effect (h : SecretsPresent s) (ha : Accounts s)
    (he : Effect rand env session s req s') : SecretsPresent s' := by
  rcases he.users_cases with hs | ⟨params, stripeToken, token, -, hv, -, rfl⟩ |
    ⟨token, password, id, user, -, hid, -, rfl⟩
  · rw [SecretsPresent, hs]
    exact h
  · intro k x hk
    rw [signedUp_users] at hk
    rcases Table.get_insert_cases hk with ⟨rfl, -⟩ | hk
    · obtain ⟨p, hp, hlong⟩ := newUser_digest hv
      exact ⟨⟨env.salt, p⟩, hp, hlong.1⟩
    · exact h k x hk
  · intro k x hk
    rw [ha.reset_users rand env hid password] at hk
    rcases Table.get_update_cases hk with ⟨y, -, rfl⟩ | ⟨-, hk⟩
    · exact setPassword_present env.salt (h id user hid) password
    · exact h k x hk

end

/-! A reset. -/

/-- The password was reset: the submitted one logs the user in, the one in force before does not
    any more, and no other user has changed. -/
structure TookEffect (s s' : Store) (id : Nat) (user : User) (password : Param) : Prop where
  letsIn : ∀ env session, LetsIn env s' session user.email password id
  replaced : ∀ old, old ≠ password → (∃ env session, LetsIn env s session user.email old id) →
    ∀ env session, ¬ LetsIn env s' session user.email old id
  others : ∀ k, k ≠ id → s'.users.get k = s.users.get k

section
variable {rand : Nat → String} {env : Env} {s : Store} {id : Nat} {user : User}

/-- After the reset the user logs in with what `password=` left to be hashed. -/
theorem Accounts.letsIn_reset (h : Accounts s) (hid : s.users.get id = some user)
    {password : Param} (env' : Env) (session : Option Nat) (p : Param) :
    LetsIn env' (passwordResets.reset rand env s id user password) session user.email p id ↔
      ∃ d, setPassword env.salt user.passwordDigest password = some d ∧ d.secret = p.getD "" := by
  have hid' : (passwordResets.reset rand env s id user password).users.get id = some { user with
      passwordDigest := setPassword env.salt user.passwordDigest password
      token := generateToken rand s } := by
    rw [h.reset_users rand env hid password, Table.get_update_self, hid]
    rfl
  have ha : Accounts (passwordResets.reset rand env s id user password) :=
    h.effect (show Effect rand env none s (.passwordResetsCreate user.token password) _ from .reset hid rfl)
  exact (ha.letsIn_iff hid' env' session p).trans authenticate_iff

/-- Only the string itself can be taken for a password that is not blank. -/
theorem eq_some_of_present {secret : String} (h : Rails.blank secret = false) {p : Param}
    (hp : secret = p.getD "") : p = some secret := by
  cases p with
  | none =>
    have he : secret = "" := hp
    rw [he] at h
    cases h
  | some t => exact congrArg some (Eq.symm hp)

/-- A blank password leaves the old one in force, which is not blank. -/
theorem TookEffect.not_blank (h : Accounts s) (hs : SecretsPresent s) (hid : s.users.get id = some user)
    {password : Param}
    (ht : TookEffect s (passwordResets.reset rand env s id user password) id user password) :
    Param.blank password = false := by
  by_contra hb
  have hb : Param.blank password = true := by simpa using hb
  obtain ⟨d, hd, hdb⟩ := hs id user hid
  obtain ⟨d', hd', hsec⟩ := (h.letsIn_reset hid .fair none password).mp (ht.letsIn .fair none)
  rw [setPassword_of_blank hb, hd] at hd'
  obtain rfl := Option.some.inj hd'
  rw [eq_some_of_present hdb hsec] at hb
  exact absurd hb (by simp [Param.blank, hdb])

theorem reset_tookEffect (h : Accounts s) (hs : SecretsPresent s) (hid : s.users.get id = some user)
    {p : String} (hp : Rails.blank p = false) :
    TookEffect s (passwordResets.reset rand env s id user (some p)) id user (some p) where
  letsIn := by
    intro env' session
    exact (h.letsIn_reset hid env' session (some p)).mpr ⟨⟨env.salt, p⟩, setPassword_some hp, rfl⟩
  replaced := by
    intro old hne hold env' session hnew
    obtain ⟨env₀, session₀, hold⟩ := hold
    obtain ⟨d, hd, hsec⟩ := authenticate_iff.mp ((h.letsIn_iff hid env₀ session₀ old).mp hold)
    obtain ⟨d₀, hd₀, hdb⟩ := hs id user hid
    obtain rfl := Option.some.inj (hd.symm.trans hd₀)
    obtain ⟨d', hd', hsec'⟩ := (h.letsIn_reset hid env' session old).mp hnew
    rw [setPassword_some hp] at hd'
    obtain rfl := Option.some.inj hd'
    -- both the old and the new password are what `old` says
    have hold : old = some d.secret := eq_some_of_present hdb hsec
    have hpd : p = d.secret := by simpa [hold] using hsec'
    exact hne (by rw [hold, hpd])
  others := by
    intro k hk
    rw [h.reset_users rand env hid (some p), Table.get_update_ne _ hk]

/-- A reset took effect exactly when the password was not blank. -/
theorem reset_tookEffect_iff (h : Accounts s) (hs : SecretsPresent s) (hid : s.users.get id = some user)
    (password : Param) :
    TookEffect s (passwordResets.reset rand env s id user password) id user password ↔
      Param.blank password = false := by
  refine ⟨TookEffect.not_blank h hs hid, ?_⟩
  intro hb
  obtain ⟨p, rfl, hp⟩ := some_of_not_blank hb
  exact reset_tookEffect h hs hid hp

end

/-- **When a reset that reports success has taken effect.** In every reachable state, for every
    token and password parameter: if `PasswordResets#create` reports that the password has been
    updated, then it found the user of the token, and for that user the reset has taken effect
    exactly when the password is not blank; if it reports anything else, the users are as they
    were. -/
theorem reset_takes_effect_iff (rand : Nat → String) (w₀ : World) (h₀ : w₀.store.users.rows = [])
    (es : List Event) (e : Event) (token password : Param)
    (he : e.request = .passwordResetsCreate token password) :
    let w := run (World.step rand) w₀ es
    let s' := (w.step rand e).store
    ((w.response rand e).flash = some (.success "Password has been updated.") →
      ∃ id user, w.store.users.findBy e.env.take (fun x => x.token == token) = some (id, user) ∧
        (TookEffect w.store s' id user password ↔ Param.blank password = false)) ∧
    ((w.response rand e).flash ≠ some (.success "Password has been updated.") → s'.users = w.store.users) := by
  intro w s'
  have hinv : Accounts w.store ∧ SecretsPresent w.store := by
    refine run_inv (I := fun w : World => Accounts w.store ∧ SecretsPresent w.store) ?_
      ⟨accounts_of_no_users h₀, fun k x hk => absurd hk (Table.not_get_of_no_rows h₀)⟩ es
    intro x e hx
    have he := step_effect rand x e
    exact ⟨hx.1.effect he, hx.2.effect hx.1 he⟩
  have hout : w.outcome rand e = passwordResets.create rand e.env w.store (w.sessions e.sid) token password := by
    rw [World.outcome, he]
    rfl
  show ((w.outcome rand e).response.flash = _ → ∃ id user, _ ∧ (TookEffect _ (w.outcome rand e).store _ _ _ ↔ _)) ∧
    ((w.outcome rand e).response.flash ≠ _ → (w.outcome rand e).store.users = _)
  rw [hout]
  unfold passwordResets.create
  split
  · next id user hfind =>
    refine ⟨?_, fun hno => absurd rfl hno⟩
    intro _
    exact ⟨id, user, hfind, reset_tookEffect_iff hinv.1 hinv.2 (Table.findBy_some hfind).1 password⟩
  · refine ⟨?_, fun _ => rfl⟩
    intro hyes
    cases hyes

/-- Alice and bob sign up. -/
def signingUp : List Event :=
  [Event.fair 1 (.usersCreate (some ⟨some "alice", some "alice@example.com", some "password"⟩) none none),
   Event.fair 2 (.usersCreate (some ⟨some "bob", some "bob@example.com", some "12345678"⟩) none none)]

theorem reset_takes_effect_iff_small :
    let w := run (World.step tally) World.empty signingUp
    let e := Event.fair 1 (.passwordResetsCreate (some "") (some "new password"))
    ∃ id user, w.store.users.findBy e.env.take (fun x => x.token == some "") = some (id, user) ∧
      TookEffect w.store (w.step tally e).store id user (some "new password") := by
  intro w e
  obtain ⟨id, user, hfind, hiff⟩ := (reset_takes_effect_iff tally World.empty rfl signingUp e (some "")
    (some "new password") rfl).1 (by decide)
  exact ⟨id, user, hfind, hiff.mpr (by decide)⟩

/-- A blank password: the success is reported, the old password goes on logging alice in and the
    submitted one does not. -/
theorem reset_without_effect :
    let w := run (World.step tally) World.empty signingUp
    let e := Event.fair 1 (.passwordResetsCreate (some "") (some "   "))
    World.empty.store.users.rows = [] ∧
      (w.response tally e).flash = some (.success "Password has been updated.") ∧
      ¬ LetsIn .fair (w.step tally e).store none (some "alice@example.com") (some "   ") 1 ∧
      LetsIn .fair (w.step tally e).store none (some "alice@example.com") (some "password") 1 := by
  decide

end Myflix
