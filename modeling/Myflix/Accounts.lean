import Myflix.Lib.Fresh
import Myflix.Writes

/- Accounts: the users table along a run. The reset of a password drops the result
   of its save, so everything here rests on one invariant, `Accounts`: what the
   validations ask of username and email goes on holding for every stored user, and
   so the save in `PasswordResets#create` goes through.

   What is proved:
     1. `reset_tokens_single_use`: tokens are there, distinct and used once.
     2. `passwords_long_iff`: all passwords have 8 characters along a run exactly
        when the resets submit such passwords; nothing else asks for it
        (`passwords_short`). -/
namespace Myflix
open Relational Rails Transition

/-! The identity of a user. -/

/-- What the validations of username and email guarantee, of every stored user. -/
structure Accounts (s : Store) : Prop where
  present : ∀ k x, s.users.get k = some x → Param.blank x.username = false ∧ Param.blank x.email = false
  held : ∀ k x, s.users.get k = some x → holdsString x.username = true ∧ holdsString x.email = true
  usernames : s.users.Unique User.username
  emails : s.users.Unique User.email

section
variable {s : Store}

theorem taken_eq_false {users : Table User} {self : Option Nat} {column : User → Option String}
    {value : Option String} :
    taken users self column value = false ↔
      ∀ k x, users.get k = some x → some k ≠ self → column x ≠ truncated value := by
  simp only [taken, List.any_eq_false, Bool.and_eq_true, bne_iff_ne, beq_iff_eq, not_and]
  exact Table.forall_rows (P := fun k x => some k ≠ self → column x ≠ truncated value)

theorem exists_of_taken {users : Table User} {self : Option Nat} {column : User → Option String}
    {value : Option String} (h : taken users self column value = true) :
    ∃ k x, users.get k = some x ∧ column x = truncated value := by
  by_contra hno
  have hfree : taken users self column value = false := by
    rw [taken_eq_false]
    intro k x hk _ he
    exact hno ⟨k, x, hk, he⟩
  rw [hfree] at h
  cases h

theorem identityValid_iff {users : Table User} {self : Option Nat} {username email : Option String} :
    identityValid users self username email = true ↔
      (Param.blank username = false ∧ taken users self User.username username = false) ∧
      (Param.blank email = false ∧ taken users self User.email email = false) := by
  simp only [identityValid, Bool.and_eq_true, Bool.not_eq_true']

/-- A stored user passes its own validations. -/
theorem Accounts.identityValid (h : Accounts s) {k : Nat} {x : User} (hk : s.users.get k = some x) :
    identityValid s.users (some k) x.username x.email = true := by
  obtain ⟨hu, he⟩ := h.present k x hk
  obtain ⟨hhu, hhe⟩ := h.held k x hk
  rw [identityValid_iff, taken_eq_false, taken_eq_false, truncated_of_holds hhu, truncated_of_holds hhe]
  refine ⟨⟨hu, ?_⟩, ⟨he, ?_⟩⟩
  · intro j y hj hne heq
    exact hne (congrArg some (h.usernames j k y x hj hk heq))
  · intro j y hj hne heq
    exact hne (congrArg some (h.emails j k y x hj hk heq))

/-- So the save of a reset goes through. -/
theorem Accounts.reset_users (h : Accounts s) (rand : Nat → String) (env : Env) {id : Nat} {user : User}
    (hid : s.users.get id = some user) (password : Param) :
    (passwordResets.reset rand env s id user password).users = s.users.update id (fun u => { u with
      passwordDigest := setPassword env.salt user.passwordDigest password
      token := generateToken rand s }) := by
  rw [Myflix.reset_users, if_pos (h.identityValid hid)]

/-- A new user that passes the validations and fits the columns. -/
theorem Accounts.insert (h : Accounts s) {x : User} {username email : Option String}
    (hv : Myflix.identityValid s.users none username email = true)
    (hf : fitsString username = true ∧ fitsString email = true)
    (hx : x.username = truncated username ∧ x.email = truncated email) {s' : Store}
    (hs : s'.users = s.users.insert x) : Accounts s' := by
  rw [identityValid_iff, taken_eq_false, taken_eq_false, ← hx.1, ← hx.2] at hv
  obtain ⟨⟨hu, hnu⟩, ⟨he, hne⟩⟩ := hv
  refine ⟨?_, ?_, ?_, ?_⟩
  · intro k y hk
    rw [hs] at hk
    rcases Table.get_insert_cases hk with ⟨rfl, -⟩ | hk
    · rw [hx.1, hx.2, blank_truncated hf.1, blank_truncated hf.2]
      exact ⟨hu, he⟩
    · exact h.present k y hk
  · intro k y hk
    rw [hs] at hk
    rcases Table.get_insert_cases hk with ⟨rfl, -⟩ | hk
    · rw [hx.1, hx.2]
      exact ⟨holdsString_truncated _, holdsString_truncated _⟩
    · exact h.held k y hk
  · rw [hs]
    exact h.usernames.insert (fun k y hk => hnu k y hk (by simp))
  · rw [hs]
    exact h.emails.insert (fun k y hk => hne k y hk (by simp))

/-- Rows that keep their username and email. -/
theorem Accounts.of_same_identity (h : Accounts s) {s' : Store}
    (hs : ∀ k y, s'.users.get k = some y →
      ∃ x, s.users.get k = some x ∧ y.username = x.username ∧ y.email = x.email) : Accounts s' := by
  refine ⟨?_, ?_, ?_, ?_⟩
  · intro k y hk
    obtain ⟨x, hx, hu, he⟩ := hs k y hk
    rw [hu, he]
    exact h.present k x hx
  · intro k y hk
    obtain ⟨x, hx, hu, he⟩ := hs k y hk
    rw [hu, he]
    exact h.held k x hx
  · apply h.usernames.of_rows
    intro k y hk
    obtain ⟨x, hx, hu, -⟩ := hs k y hk
    exact ⟨x, hx, hu.symm⟩
  · apply h.emails.of_rows
    intro k y hk
    obtain ⟨x, hx, -, he⟩ := hs k y hk
    exact ⟨x, hx, he.symm⟩

theorem accounts_of_no_users (h : s.users.rows = []) : Accounts s := by
  have hnone : ∀ {k x}, s.users.get k ≠ some x := Table.not_get_of_no_rows h
  exact ⟨fun _ _ hk => absurd hk hnone, fun _ _ hk => absurd hk hnone, Table.unique_of_no_rows h,
    Table.unique_of_no_rows h⟩

end

section
variable {rand : Nat → String} {env : Env} {session : Option Nat} {s s' : Store} {req : Request}

theorem NewUser.fits_iff {u : NewUser} :
    u.fits = true ↔ fitsString u.username = true ∧ fitsString u.email = true := by
  simp only [NewUser.fits, Bool.and_eq_true]

theorem Accounts.effect (h : Accounts s) (he : Effect rand env session s req s') : Accounts s' := by
  rcases he.users_cases with hs | ⟨params, stripeToken, token, -, hv, hf, rfl⟩ |
    ⟨token, password, id, user, -, hid, -, rfl⟩
  · refine h.of_same_identity ?_
    intro k y hk
    exact ⟨y, by rw [← hs]; exact hk, rfl, rfl⟩
  · simp only [NewUser.valid, Bool.and_eq_true] at hv
    exact h.insert hv.1 (NewUser.fits_iff.mp hf) ⟨rfl, rfl⟩ (signedUp_users ..)
  · refine h.of_same_identity ?_
    intro k y hk
    rw [h.reset_users rand env hid password] at hk
    rcases Table.get_update_cases hk with ⟨x, hx, rfl⟩ | ⟨-, hk⟩
    · exact ⟨x, hx, rfl, rfl⟩
    · exact ⟨y, hk, rfl, rfl⟩

end

/-! Tokens. -/

section
variable {rand : Nat → String} {env : Env} {session : Option Nat} {s s' : Store} {req : Request}

/-- Every user has a token SecureRandom has returned, and no two users the same. -/
abbrev TokensIssued (rand : Nat → String) (s : Store) : Prop := Issued rand User.token s.drawn s.users

/-- SecureRandom has returned the token, and it is nobody's now. -/
abbrev TokenSpent (rand : Nat → String) (s : Store) (i : Nat) : Prop := Spent rand User.token s.drawn s.users i

theorem tokensIssued_effect (hr : Function.Injective rand) (ha : Accounts s) (h : TokensIssued rand s)
    (he : Effect rand env session s req s') : TokensIssued rand s' := by
  have hd := he.drawn_le
  rcases he.users_cases with hs | ⟨params, stripeToken, token, -, -, -, rfl⟩ |
    ⟨token, password, id, user, -, hid, -, rfl⟩
  · rw [TokensIssued, hs]
    exact h.mono hd
  · rw [TokensIssued, signedUp_users, signedUp_drawn]
    exact h.insert hr rfl
  · rw [TokensIssued, ha.reset_users rand env hid password, reset_drawn]
    exact h.update hr (fun _ => rfl)

theorem tokenSpent_effect (hr : Function.Injective rand) (ha : Accounts s) {i : Nat} (h : TokenSpent rand s i)
    (he : Effect rand env session s req s') : TokenSpent rand s' i := by
  have hd := he.drawn_le
  rcases he.users_cases with hs | ⟨params, stripeToken, token, -, -, -, rfl⟩ |
    ⟨token, password, id, user, -, hid, -, rfl⟩
  · rw [TokenSpent, hs]
    exact h.mono hd
  · rw [TokenSpent, signedUp_users, signedUp_drawn]
    exact h.insert hr rfl
  · rw [TokenSpent, ha.reset_users rand env hid password, reset_drawn]
    exact h.update hr (fun _ => rfl)

/-- What a reset does and answers: it is accepted for a user who has the token, and turned away
    without a write when nobody has. -/
theorem passwordResets_create_cases (rand : Nat → String) (env : Env) (s : Store) (session : Option Nat)
    (token password : Param) :
    (∃ id user, s.users.get id = some user ∧ user.token = token ∧
      passwordResets.create rand env s session token password =
        reply (passwordResets.reset rand env s id user password) session
          (redirectTo .login (some (.success "Password has been updated.")))) ∨
    ((∀ k x, s.users.get k = some x → x.token ≠ token) ∧
      passwordResets.create rand env s session token password = reply s session (redirectTo .expiredToken none)) := by
  simp only [passwordResets.create]
  split
  · next id user h =>
    obtain ⟨hid, ht⟩ := Table.findBy_some h
    exact .inl ⟨id, user, hid, by simpa using ht, rfl⟩
  · next h =>
    refine .inr ⟨?_, rfl⟩
    intro k x hk ht
    have := Table.findBy_none.mp h k x hk
    simp [ht] at this

/-- A token is spent once a reset was accepted with it. -/
theorem tokenSpent_reset (env : Env) (hr : Function.Injective rand) (ha : Accounts s) (h : TokensIssued rand s)
    {id : Nat} {user : User} (hid : s.users.get id = some user) (password : Param) :
    ∃ i, user.token = some (rand i) ∧ TokenSpent rand (passwordResets.reset rand env s id user password) i := by
  obtain ⟨i, -, hi⟩ := h.drawn id user hid
  refine ⟨i, hi, ?_⟩
  rw [TokenSpent, ha.reset_users rand env hid password, reset_drawn]
  exact h.spend hr hid hi (fun _ => rfl)

end

/-- A password reset is accepted. -/
def ResetAccepted (rand : Nat → String) (w : World) (e : Event) (token : Param) : Prop :=
  (∃ password, e.request = .passwordResetsCreate token password) ∧
    (w.response rand e).reply = .redirectTo .login

/-- The request is a reset, or a view of the reset form, with a token that is missing or nobody's. -/
def StaleToken (s : Store) (req : Request) : Prop :=
  ∃ token, (token = none ∨ ∀ k x, s.users.get k = some x → x.token ≠ token) ∧
    (req = .passwordResetsShow token ∨ ∃ password, req = .passwordResetsCreate token password)

section
variable {rand : Nat → String}

theorem resetAccepted_cases {w : World} {e : Event} {token : Param} (h : ResetAccepted rand w e token) :
    ∃ password id user, w.store.users.get id = some user ∧ user.token = token ∧
      (w.step rand e).store = passwordResets.reset rand e.env w.store id user password := by
  obtain ⟨⟨password, hreq⟩, hok⟩ := h
  have ho : w.outcome rand e =
      passwordResets.create rand e.env w.store (w.sessions e.sid) token password := by
    rw [World.outcome, hreq]
    rfl
  rw [World.response, ho] at hok
  rcases passwordResets_create_cases rand e.env w.store (w.sessions e.sid) token password
    with ⟨id, user, hid, ht, heq⟩ | ⟨-, heq⟩
  · refine ⟨password, id, user, hid, ht, ?_⟩
    show (w.outcome rand e).store = _
    rw [ho, heq]
    rfl
  · rw [heq] at hok
    cases hok

theorem staleToken_unchanged {w : World} (h : TokensIssued rand w.store) {e : Event}
    (hs : StaleToken w.store e.request) : (w.step rand e).store = w.store := by
  obtain ⟨token, hno, hreq⟩ := hs
  -- nobody's token is nil, so a missing parameter is nobody's token either
  have hno : ∀ k x, w.store.users.get k = some x → x.token ≠ token := by
    rcases hno with rfl | hno
    · intro k x hk ht
      obtain ⟨i, -, hi⟩ := h.drawn k x hk
      rw [hi] at ht
      cases ht
    · exact hno
  show (handle rand e.env w.store (w.sessions e.sid) e.request).store = w.store
  rcases hreq with hreq | ⟨password, hreq⟩
  · rw [hreq]
    simp only [handle, passwordResets.show']
    split <;> rfl
  · rw [hreq]
    show (passwordResets.create rand e.env w.store (w.sessions e.sid) token password).store = w.store
    rcases passwordResets_create_cases rand e.env w.store (w.sessions e.sid) token password
      with ⟨id, user, hid, ht, -⟩ | ⟨-, heq⟩
    · exact absurd ht (hno id user hid)
    · rw [heq]
      rfl

end

/-- **Reset tokens are used once.** From an empty users table, with a SecureRandom that never
    repeats: every user has a token and no two users share one; a reset or a reset form with a
    token that is missing or nobody's changes nothing; and after a reset was accepted with a
    token, no later one is accepted with it. -/
theorem reset_tokens_single_use (rand : Nat → String) (hr : Function.Injective rand) (w : World)
    (h : w.store.users.rows = []) (es : List Event) :
    ((∀ k x, (run (World.step rand) w es).store.users.get k = some x → x.token ≠ none) ∧
      (run (World.step rand) w es).store.users.Unique User.token) ∧
    Along (World.step rand) (fun w e => StaleToken w.store e.request → (w.step rand e).store = w.store) w es ∧
    ∀ pre e mid e' post token, es = pre ++ e :: (mid ++ e' :: post) →
      ResetAccepted rand (run (World.step rand) w pre) e token →
      ¬ ResetAccepted rand (run (World.step rand) w (pre ++ e :: mid)) e' token := by
  have hinv : ∀ es, Accounts (run (World.step rand) w es).store ∧
      TokensIssued rand (run (World.step rand) w es).store := by
    intro es
    refine run_inv (I := fun w : World => Accounts w.store ∧ TokensIssued rand w.store) ?_
      ⟨accounts_of_no_users h, issued_of_no_rows h⟩ es
    intro x e hx
    have he := step_effect rand x e
    exact ⟨hx.1.effect he, tokensIssued_effect hr hx.1 hx.2 he⟩
  refine ⟨⟨?_, (hinv es).2.distinct⟩, ?_, ?_⟩
  · intro k x hk ht
    obtain ⟨i, -, hi⟩ := (hinv es).2.drawn k x hk
    rw [hi] at ht
    cases ht
  · intro pre e post _ hs
    exact staleToken_unchanged (hinv pre).2 hs
  · intro pre e mid e' post token _ hacc hacc'
    obtain ⟨password, id, user, hid, ht, hstep⟩ := resetAccepted_cases hacc
    obtain ⟨i, hi, hspent⟩ := tokenSpent_reset e.env hr (hinv pre).1 (hinv pre).2 hid password
    rw [← hstep] at hspent
    -- spent stays spent through the requests in between
    have hlater : Accounts (run (World.step rand) w (pre ++ e :: mid)).store ∧
        TokenSpent rand (run (World.step rand) w (pre ++ e :: mid)).store i := by
      rw [run_append, run_cons]
      refine run_inv (I := fun w : World => Accounts w.store ∧ TokenSpent rand w.store i) ?_ ⟨?_, hspent⟩ mid
      · intro x e hx
        have he := step_effect rand x e
        exact ⟨hx.1.effect he, tokenSpent_effect hr hx.1 hx.2 he⟩
      · exact (hinv pre).1.effect (step_effect rand _ e)
    obtain ⟨-, id', user', hid', ht', -⟩ := resetAccepted_cases hacc'
    exact hlater.2.gone id' user' hid' (by rw [ht', ← ht, hi])

/-- A new installation. -/
def World.empty : World := ⟨Store.empty, fun _ => none⟩

/-- Two users sign up; the first resets the password twice, with the token valid at the time. -/
def resetting : List Event :=
  [Event.fair 1 (.usersCreate (some ⟨some "alice", some "alice@example.com", some "password"⟩) none none),
   Event.fair 2 (.usersCreate (some ⟨some "bob", some "bob@example.com", some "12345678"⟩) none none),
   Event.fair 1 (.passwordResetsCreate (some "") (some "new password")),
   Event.fair 1 (.passwordResetsCreate (some "aa") (some "newer password"))]

theorem reset_tokens_single_use_small :
    (run (World.step tally) World.empty resetting).store.users.rows.map (fun r => r.2.token) =
      [some "aaa", some "a"] ∧
    (run (World.step tally) World.empty resetting).store.users.Unique User.token :=
  ⟨by decide, (reset_tokens_single_use tally tally_injective World.empty rfl resetting).1.2⟩

/-! Passwords. -/

/-- Not blank, and 8 characters or more. -/
def Long (password : Param) : Prop := Param.blank password = false ∧ 8 ≤ (password.getD "").toList.length

instance (password : Param) : Decidable (Long password) :=
  inferInstanceAs (Decidable (Param.blank password = false ∧ 8 ≤ (password.getD "").toList.length))

/-- Every password that authenticates a user is. -/
def PasswordsLong (s : Store) : Prop :=
  ∀ k x password, s.users.get k = some x → x.authenticate password = .ok true → Long password

theorem authenticate_iff {x : User} {password : Param} :
    x.authenticate password = .ok true ↔ ∃ d, x.passwordDigest = some d ∧ d.secret = password.getD "" := by
  unfold User.authenticate
  cases x.passwordDigest with
  | none => simp
  | some d => simp [Digest.accepts]

/-- The password last hashed is the one that authenticates. -/
theorem passwordsLong_iff {s : Store} :
    PasswordsLong s ↔ ∀ k x d, s.users.get k = some x → x.passwordDigest = some d → Long (some d.secret) := by
  refine ⟨?_, ?_⟩
  · intro h k x d hk hd
    exact h k x (some d.secret) hk (authenticate_iff.mpr ⟨d, hd, rfl⟩)
  · intro h k x password hk ha
    obtain ⟨d, hd, hs⟩ := authenticate_iff.mp ha
    have hlong := h k x d hk hd
    cases password with
    | some p =>
      have hp : d.secret = p := hs
      rw [← hp]
      exact hlong
    | none =>
      -- only the empty password is accepted in place of a missing one
      have hp : d.secret = "" := hs
      rw [hp] at hlong
      exact absurd hlong (by decide)

theorem passwordsLong_rows {s : Store} :
    (∀ r ∈ s.users.rows, ∀ d ∈ r.2.passwordDigest, Long (some d.secret)) ↔ PasswordsLong s := by
  rw [passwordsLong_iff]
  refine (Table.forall_rows (P := fun _ (x : User) => ∀ d ∈ x.passwordDigest, Long (some d.secret))).trans ⟨?_, ?_⟩
  · intro h k x d hk hd
    exact h k x hk d hd
  · intro h k x hk d hd
    exact h k x d hk hd

instance (s : Store) : Decidable (PasswordsLong s) := decidable_of_iff _ passwordsLong_rows

/-- A reset that finds its user submits a long password, or a blank one, which is ignored. -/
def ResetsLong (s : Store) (req : Request) : Prop :=
  ∀ token password, req = .passwordResetsCreate token password →
    (∃ k x, s.users.get k = some x ∧ x.token = token) → Param.blank password = true ∨ Long password

section
variable {rand : Nat → String} {env : Env} {session : Option Nat} {s s' : Store} {req : Request}

/-- What a sign-up hashes. -/
theorem newUser_digest {params : UserParams} {salt : Nat}
    (hv : (NewUser.new params salt).valid s.users = true) :
    ∃ p, (NewUser.new params salt).passwordDigest = some ⟨salt, p⟩ ∧ Long (some p) := by
  simp only [NewUser.valid, passwordValid, Bool.and_eq_true, Bool.not_eq_true', decide_eq_true_eq] at hv
  obtain ⟨-, hblank, hlen⟩ := hv
  cases hp : params.password with
  | none =>
    simp [NewUser.new, hp, Param.blank] at hblank
  | some p =>
    by_cases hb : Param.blank (some p) = true
    · simp only [NewUser.new, hp, hb, if_true] at hblank
      cases hblank
    · have hb : Param.blank (some p) = false := by simpa using hb
      simp only [NewUser.new, hp, hb, Bool.false_eq_true, if_false] at hlen
      refine ⟨p, ?_, hb, hlen⟩
      simp [NewUser.new, hp, hb, setPassword]

/-- A reset hashes what it is given, unless that is blank. -/
theorem setPassword_long (salt : Nat) {old : Option Digest} (hold : ∀ d, old = some d → Long (some d.secret))
    {password : Param} :
    (∀ d, setPassword salt old password = some d → Long (some d.secret)) ↔
      Param.blank password = true ∨ Long password := by
  cases password with
  | none =>
    refine ⟨fun _ => .inl rfl, fun _ d hd => hold d ?_⟩
    simpa [setPassword, Param.blank] using hd
  | some p =>
    by_cases hb : Param.blank (some p) = true
    · refine ⟨fun _ => .inl hb, fun _ d hd => hold d ?_⟩
      simpa [setPassword, hb] using hd
    · have hb : Param.blank (some p) = false := by simpa using hb
      simp only [setPassword, hb, Bool.false_eq_true, if_false, Option.some.injEq, Option.getD_some, false_or]
      refine ⟨fun h => h _ rfl, ?_⟩
      intro h d hd
      rw [← hd]
      exact h

theorem reset_passwordsLong (ha : Accounts s) (h0 : PasswordsLong s) {id : Nat} {user : User}
    (hid : s.users.get id = some user) (password : Param) :
    PasswordsLong (passwordResets.reset rand env s id user password) ↔
      Param.blank password = true ∨ Long password := by
  rw [passwordsLong_iff] at h0 ⊢
  rw [ha.reset_users rand env hid password, ← setPassword_long env.salt (fun d => h0 id user d hid)]
  refine ⟨?_, ?_⟩
  · intro h d hd
    refine h id { user with
      passwordDigest := setPassword env.salt user.passwordDigest password
      token := generateToken rand s } d ?_ hd
    rw [Table.get_update_self, hid]
    rfl
  · intro h k x d hk hd
    rcases Table.get_update_cases hk with ⟨y, -, rfl⟩ | ⟨-, hk⟩
    · exact h d hd
    · exact h0 k x d hk hd

theorem Effect.passwordsLong (he : Effect rand env session s req s') (ha : Accounts s) (h0 : PasswordsLong s)
    (hc : ResetsLong s req) : PasswordsLong s' := by
  rcases he.users_cases with hs | ⟨params, stripeToken, token, -, hv, -, rfl⟩ |
    ⟨token, password, id, user, hreq, hid, ht, rfl⟩
  · rw [PasswordsLong, hs]
    exact h0
  · rw [passwordsLong_iff] at h0 ⊢
    intro k x d hk hd
    rw [signedUp_users] at hk
    rcases Table.get_insert_cases hk with ⟨rfl, -⟩ | hk
    · obtain ⟨p, hp, hlong⟩ := newUser_digest hv
      obtain rfl := Option.some.inj (hp.symm.trans hd)
      exact hlong
    · exact h0 k x d hk hd
  · exact (reset_passwordsLong ha h0 hid password).mpr (hc token password hreq ⟨id, user, hid, ht⟩)

/-- One request keeps the passwords long exactly when it meets the condition. -/
theorem handle_passwordsLong_iff (req : Request) (ha : Accounts s) (h0 : PasswordsLong s) :
    PasswordsLong (handle rand env s session req).store ↔ ResetsLong s req := by
  refine ⟨?_, (handle_effect req).passwordsLong ha h0⟩
  intro h token password hreq hex
  subst hreq
  have h : PasswordsLong (passwordResets.create rand env s session token password).store := h
  rcases passwordResets_create_cases rand env s session token password with ⟨id, user, hid, -, heq⟩ | ⟨hno, -⟩
  · rw [heq] at h
    exact (reset_passwordsLong ha h0 hid password).mp h
  · obtain ⟨k, x, hk, ht⟩ := hex
    exact absurd ht (hno k x hk)

end

/-- **When the passwords stay long.** Along a run from an empty users table every password that
    authenticates somebody is non-blank and has 8 characters in every state exactly when every
    reset that finds its user submits such a password, or a blank one. -/
theorem passwords_long_iff (rand : Nat → String) (w : World) (h : w.store.users.rows = []) (es : List Event) :
    Always (World.step rand) (fun w => PasswordsLong w.store) w es ↔
      Along (World.step rand) (fun w e => ResetsLong w.store e.request) w es := by
  refine run_iff (I := fun w : World => Accounts w.store) (fun w e hw => hw.effect (step_effect rand w e)) ?_
    (accounts_of_no_users h) ?_ es
  · intro x e ha h0
    exact handle_passwordsLong_iff e.request ha h0
  · intro k x password hk
    exact absurd hk (Table.not_get_of_no_rows h)

theorem passwords_long_iff_small :
    Along (World.step tally) (fun w e => ResetsLong w.store e.request) World.empty resetting :=
  (passwords_long_iff tally World.empty rfl resetting).mp (by decide)

/-- Alice signs up and resets the password to three letters. -/
def shortening : List Event :=
  [Event.fair 1 (.usersCreate (some ⟨some "alice", some "alice@example.com", some "password"⟩) none none),
   Event.fair 1 (.passwordResetsCreate (some "") (some "abc"))]

theorem passwords_short :
    World.empty.store.users.rows = [] ∧
    (run (World.step tally) World.empty shortening).store.users.rows.map (fun r => r.2.passwordDigest) =
      [some ⟨0, "abc"⟩] ∧
    ¬ Always (World.step tally) (fun w => PasswordsLong w.store) World.empty shortening := by
  refine ⟨by decide, by decide, by decide⟩

end Myflix
