import Myflix.SignupConsistency

/- Overlapping sign-ups and the names they take. The uniqueness of usernames and
   emails is only validated: the users table has no unique index, and with the query
   cache the validation inside `save` does not even look again. So two sign-ups that
   check a name before either is stored both get it.

   What is proved:
     1. `raced_signups_lock_accounts`: names stay unique exactly when every INSERT
        still finds its names free. Two users with one name are locked for good: no
        later request changes the row of either, since their saves fail the
        validation, though every reset of a password is answered with success. -/
namespace Myflix
open Relational Rails Transition Interleaving

/-! Two users with one name. -/

/-- Two stored users with one username or one email. -/
structure Clash (s : Store) (k k' : Nat) (x x' : User) : Prop where
  ne : k ≠ k'
  first : s.users.get k = some x
  second : s.users.get k' = some x'
  shared : (x.username = x'.username ∧ truncated x.username = x.username) ∨
    (x.email = x'.email ∧ truncated x.email = x.email)

section
variable {s s' : Store} {k k' : Nat} {x x' : User}

theorem Clash.symm (h : Clash s k k' x x') : Clash s k' k x' x := by
  refine ⟨h.ne.symm, h.second, h.first, ?_⟩
  rcases h.shared with ⟨he, ht⟩ | ⟨he, ht⟩
  · exact .inl ⟨he.symm, he ▸ ht⟩
  · exact .inr ⟨he.symm, he ▸ ht⟩

theorem Clash.not_accounts (h : Clash s k k' x x') : ¬ Accounts s := by
  intro ha
  rcases h.shared with ⟨he, -⟩ | ⟨he, -⟩
  · exact h.ne (ha.usernames k k' x x' h.first h.second he)
  · exact h.ne (ha.emails k k' x x' h.first h.second he)

/-- The other one's row is in the way of every save. -/
theorem Clash.invalid (h : Clash s k k' x x') : identityValid s.users (some k) x.username x.email ≠ true := by
  intro hv
  rw [identityValid_iff, taken_eq_false, taken_eq_false] at hv
  obtain ⟨⟨-, hu⟩, -, he⟩ := hv
  have hother : some k' ≠ some k := fun heq => h.ne (Option.some.inj heq).symm
  rcases h.shared with ⟨hs, ht⟩ | ⟨hs, ht⟩
  · exact hu k' x' h.second hother (by rw [ht, hs])
  · exact he k' x' h.second hother (by rw [ht, hs])

theorem Clash.kept (h : Clash s k k' x x') (hs : UsersKept s s') : Clash s' k k' x x' :=
  ⟨h.ne, hs k x h.first, hs k' x' h.second, h.shared⟩

variable {rand : Nat → String} {env : Env} {session : Option Nat} {req : Request}

/-- No request changes the row. -/
theorem Clash.row_kept (h : Clash s k k' x x') (he : Effect rand env session s req s') :
    s'.users.get k = some x := by
  rcases he.users_cases with hs | ⟨params, stripeToken, token, -, -, -, rfl⟩ |
    ⟨token, password, id, user, -, hid, -, rfl⟩
  · rw [hs]
    exact h.first
  · rw [signedUp_users]
    exact Table.get_insert_of_some _ h.first
  · rw [reset_users]
    split
    · next hv =>
      have hne : k ≠ id := by
        rintro rfl
        obtain rfl : x = user := Option.some.inj (h.first.symm.trans hid)
        exact h.invalid hv
      rw [Table.get_update_ne _ hne]
      exact h.first
    · exact h.first

theorem Clash.step {w : World} (h : Clash w.store k k' x x') (e : Event) : Clash (w.step rand e).store k k' x x' :=
  have he := step_effect rand w e
  ⟨h.ne, h.row_kept he, h.symm.row_kept he, h.shared⟩

/-- A new user with a name that is taken. -/
theorem clash_addUser (rand : Nat → String) {u : NewUser} (hk : s.users.get k = some x)
    (h : x.username = truncated u.username ∨ x.email = truncated u.email) :
    Clash (s.addUser rand u) k s.users.next x (u.row rand s) := by
  refine ⟨(Table.get_lt_next hk).ne, Table.get_insert_of_some _ hk, Table.get_insert_self _ _, ?_⟩
  rcases h with h | h
  · exact .inl ⟨h, by rw [h, truncated_truncated]⟩
  · exact .inr ⟨h, by rw [h, truncated_truncated]⟩

/-- A reset with a token somebody has is answered with success, whether it is saved or not. -/
theorem reset_answered (hk : s.users.get k = some x) (password : Param) :
    (handle rand env s session (.passwordResetsCreate x.token password)).response =
      redirectTo .login (some (.success "Password has been updated.")) := by
  rcases passwordResets_create_cases rand env s session x.token password with ⟨id, user, -, -, heq⟩ | ⟨hnone, -⟩
  · simp only [handle, heq, reply]
  · exact absurd rfl (hnone k x hk)

end

/-! Sign-ups. -/

section
variable {ι : Type}

/-- A row that is inserted has names nobody else has taken since they were checked. -/
def unraced (job : ι → SignupRequest) (c : Signups ι) (turn : ι × Env) : Bool :=
  match c.phase turn.1 with
  | .inserting => !(job turn.1).user.fits || (job turn.1).user.valid c.shared.store.users
  | _ => true

/-- What the first check has found out for good: the names are given, and the password is valid. -/
def Checked (u : NewUser) : Phase → Prop
  | .charging | .saving | .inserting =>
    Param.blank u.username = false ∧ Param.blank u.email = false ∧ passwordValid u.password = true
  | _ => True

/-- What was checked and is not valid any more has been taken. -/
theorem Checked.exists_of_invalid {u : NewUser} {users : Table User} (h : Checked u .inserting)
    (hv : ¬ u.valid users = true) :
    ∃ k x, users.get k = some x ∧ (x.username = truncated u.username ∨ x.email = truncated u.email) := by
  obtain ⟨hname, hemail, hpassword⟩ := h
  by_cases ht : taken users none User.username u.username = true
  · obtain ⟨k, x, hk, he⟩ := exists_of_taken ht
    exact ⟨k, x, hk, .inl he⟩
  · by_cases ht' : taken users none User.email u.email = true
    · obtain ⟨k, x, hk, he⟩ := exists_of_taken ht'
      exact ⟨k, x, hk, .inr he⟩
    · refine absurd ?_ hv
      simp only [NewUser.valid, Bool.and_eq_true, identityValid_iff]
      exact ⟨⟨⟨hname, by simpa using ht⟩, hemail, by simpa using ht'⟩, hpassword⟩

section
variable {cached : Bool} {rand : Nat → String} {job : ι → SignupRequest} {i : ι} {env : Env} {l : Ledger ι} {p : Phase}

theorem Checked.advance (h : Checked (job i).user p) : Checked (job i).user (advance cached rand job i env l p).2 := by
  cases p with
  | validating =>
    by_cases hv : (job i).user.valid l.store.users = true
    · rw [advance_valid hv]
      simp only [NewUser.valid, Bool.and_eq_true, identityValid_iff] at hv
      exact ⟨hv.1.1.1, hv.1.2.1, hv.2⟩
    · rw [advance_invalid hv]
      trivial
  | charging =>
    by_cases hc : (signupCharge env (job i).stripeToken).successful = true
    · rw [advance_charged hc]
      exact h
    · rw [advance_declined hc]
      trivial
  | saving =>
    by_cases hv : (cached || (job i).user.valid l.store.users) = true
    · rw [advance_saved hv]
      exact h
    · rw [advance_lost hv]
      trivial
  | inserting =>
    by_cases hf : (job i).user.fits = true
    · rw [advance_inserted hf]
      trivial
    · rw [advance_refused hf]
      trivial
  | searching id =>
    simp only [Myflix.advance]
    split <;> trivial
  | following id invitation =>
    simp only [Myflix.advance]
    split <;> trivial
  | leading id inviter =>
    simp only [Myflix.advance]
    split <;> trivial
  | mailing id => trivial
  | finished id result => trivial

/-- A step leaves the users alone, or inserts one that fits; at any other step than the INSERT of
    the sign-up, one whose names are free. -/
theorem advance_users (cached : Bool) (rand : Nat → String) (job : ι → SignupRequest) (i : ι) (env : Env)
    (l : Ledger ι) (p : Phase) :
    (advance cached rand job i env l p).1.store.users = l.store.users ∨
      ((advance cached rand job i env l p).1.store.users = l.store.users.insert ((job i).user.row rand l.store) ∧
        (job i).user.fits = true ∧ (p = .inserting ∨ (job i).user.valid l.store.users = true)) := by
  have hrelate : ∀ {s : Store} {id id' : Option Nat} {edge : Option Nat → Relationship},
      relate rand l.store (job i).user id edge = .ok (s, id') →
      s.users = l.store.users ∨ (s.users = l.store.users.insert ((job i).user.row rand l.store) ∧
        (job i).user.fits = true ∧ (p = .inserting ∨ (job i).user.valid l.store.users = true)) := by
    intro s id id' edge h
    rcases relate_cases h with ⟨k, -, -, rfl⟩ | ⟨-, hv, hf, -, rfl⟩ | ⟨-, -, -, rfl⟩
    · exact .inl rfl
    · exact .inr ⟨rfl, hf, .inr hv⟩
    · exact .inl rfl
  cases p with
  | validating | saving | mailing | finished => exact .inl rfl
  | charging =>
    simp only [advance]
    split <;> exact .inl rfl
  | inserting =>
    by_cases hf : (job i).user.fits = true
    · rw [advance_inserted hf]
      exact .inr ⟨rfl, hf, .inl rfl⟩
    · rw [advance_refused hf]
      exact .inl rfl
  | searching id =>
    simp only [advance]
    split <;> exact .inl rfl
  | following id invitation =>
    cases hr : followInviter rand l.store (job i).user id (invitation.inviter l.store) with
    | error e =>
      rw [advance_follow_raises hr]
      exact .inl rfl
    | ok r =>
      rw [advance_followed hr]
      exact hrelate hr
  | leading id inviter =>
    cases hr : leadInviter rand l.store (job i).user id inviter with
    | error e =>
      rw [advance_lead_raises hr]
      exact .inl rfl
    | ok r =>
      rw [advance_led hr]
      exact hrelate hr

end

variable [DecidableEq ι] {cached : Bool} {rand : Nat → String} {job : ι → SignupRequest} {c : Signups ι}
  {turn : ι × Env}

/-- A step that is not raced keeps the names unique. -/
theorem accounts_unraced (h : Accounts c.shared.store) (hu : unraced job c turn = true) :
    Accounts (c.step (advance cached rand job) turn).shared.store := by
  show Accounts (advance cached rand job turn.1 turn.2 c.shared (c.phase turn.1)).1.store
  rcases advance_users cached rand job turn.1 turn.2 c.shared (c.phase turn.1) with hs | ⟨hs, hf, hv⟩
  · refine h.of_same_identity ?_
    intro k y hk
    rw [hs] at hk
    exact ⟨y, hk, rfl, rfl⟩
  · have hvalid : (job turn.1).user.valid c.shared.store.users = true := by
      rcases hv with hp | hv
      · simpa [unraced, hp, hf] using hu
      · exact hv
    simp only [NewUser.valid, Bool.and_eq_true] at hvalid
    exact h.insert hvalid.1 (NewUser.fits_iff.mp hf) ⟨rfl, rfl⟩ hs

/-- A raced one stores a second user with a name that is taken. -/
theorem clash_of_raced (cached : Bool) (rand : Nat → String) (hc : Checked (job turn.1).user (c.phase turn.1))
    (hu : unraced job c turn ≠ true) :
    ∃ k k' x x', Clash (c.step (advance cached rand job) turn).shared.store k k' x x' := by
  cases hp : c.phase turn.1 with
  | validating | charging | saving | searching | following | leading | mailing | finished =>
    simp [unraced, hp] at hu
  | inserting =>
    obtain ⟨hf, hv⟩ : (job turn.1).user.fits = true ∧ ¬ (job turn.1).user.valid c.shared.store.users = true := by
      simpa [unraced, hp] using hu
    rw [hp] at hc
    obtain ⟨k, x, hk, hshared⟩ := hc.exists_of_invalid hv
    have hstore : (c.step (advance cached rand job) turn).shared.store =
        c.shared.store.addUser rand (job turn.1).user := by
      show (advance cached rand job turn.1 turn.2 c.shared (c.phase turn.1)).1.store = _
      rw [hp, advance_inserted hf]
    rw [hstore]
    exact ⟨_, _, _, _, clash_addUser rand hk hshared⟩

/-- Nobody in the pool undoes it. -/
theorem clash_run (cached : Bool) (rand : Nat → String) (job : ι → SignupRequest) {k k' : Nat} {x x' : User}
    (h : Clash c.shared.store k k' x x') (turns : List (ι × Env)) :
    Clash (run (Pool.step (advance cached rand job)) c turns).shared.store k k' x x' := by
  refine run_inv (I := fun c : Signups ι => Clash c.shared.store k k' x x') ?_ h turns
  intro c turn hc
  exact hc.kept (advance_steps cached rand job turn.1 turn.2 c.shared (c.phase turn.1)).kept

theorem checked_run (cached : Bool) (rand : Nat → String) (job : ι → SignupRequest) (s : Store)
    (turns : List (ι × Env)) (i : ι) :
    Checked (job i).user ((run (Pool.step (advance cached rand job)) (Signups.start s) turns).phase i) := by
  refine run_inv (I := fun c : Signups ι => ∀ i, Checked (job i).user (c.phase i)) ?_ ?_ turns i
  · intro c turn hc
    exact Pool.all_step (L := fun j (_ : Ledger ι) p => Checked (job j).user p) (hc turn.1).advance (fun j _ => hc j)
  · intro i
    trivial

end

/-- **Raced sign-ups lock accounts.** Any number of sign-ups, interleaved in any way, with or without
    the query cache, on a database in which names are unique: they stay unique exactly when every
    INSERT finds the username and the email still free. Otherwise two users with one name are left,
    and whatever requests follow, the rows of both stay as they are: passwords and tokens never
    change again, though every reset with the token of one of them is answered with success. -/
theorem raced_signups_lock_accounts {ι : Type} [DecidableEq ι] (cached : Bool) (rand : Nat → String)
    (job : ι → SignupRequest) (s : Store) (h : Accounts s) (turns : List (ι × Env)) :
    (Always (Pool.step (advance cached rand job)) (fun c => Accounts c.shared.store) (Signups.start s) turns ↔
      Along (Pool.step (advance cached rand job)) (fun c turn => unraced job c turn = true) (Signups.start s) turns) ∧
    (¬ Along (Pool.step (advance cached rand job)) (fun c turn => unraced job c turn = true) (Signups.start s) turns →
      ∃ k k' x x', k ≠ k' ∧ (x.username = x'.username ∨ x.email = x'.email) ∧
        ∀ sessions es,
          let w := run (World.step rand)
            ⟨(run (Pool.step (advance cached rand job)) (Signups.start s) turns).shared.store, sessions⟩ es
          w.store.users.get k = some x ∧ w.store.users.get k' = some x' ∧
            ∀ env session password, ∀ token ∈ [x.token, x'.token],
              (handle rand env w.store session (.passwordResetsCreate token password)).response =
                redirectTo .login (some (.success "Password has been updated."))) := by
  -- from the first raced INSERT on there is a clash
  have hclash : ∀ pre turn post, turns = pre ++ turn :: post →
      unraced job (run (Pool.step (advance cached rand job)) (Signups.start s) pre) turn ≠ true →
      ∃ k k' x x', Clash (run (Pool.step (advance cached rand job)) (Signups.start s) turns).shared.store k k' x x' := by
    rintro pre turn post rfl hu
    obtain ⟨k, k', x, x', hk⟩ := clash_of_raced cached rand (checked_run cached rand job s pre turn.1) hu
    refine ⟨k, k', x, x', ?_⟩
    rw [run_append, run_cons]
    exact clash_run cached rand job hk post
  refine ⟨⟨?_, ?_⟩, ?_⟩
  · intro ha pre turn post he
    by_contra hu
    obtain ⟨k, k', x, x', hk⟩ := hclash pre turn post he hu
    exact hk.not_accounts (ha turns [] (List.append_nil turns).symm)
  · intro hu pre post he
    refine run_inv_of (I := fun c : Signups ι => Accounts c.shared.store) (fun _ _ hc hu => accounts_unraced hc hu)
      h pre ?_
    intro pre' turn post' hpre
    exact hu pre' turn (post' ++ post) (by rw [he, hpre]; simp)
  · intro hno
    simp only [Along, not_forall] at hno
    obtain ⟨pre, turn, post, he, hu⟩ := hno
    obtain ⟨k, k', x, x', hk⟩ := hclash pre turn post he hu
    refine ⟨k, k', x, x', hk.ne, hk.shared.imp And.left And.left, ?_⟩
    intro sessions es w
    have hw : Clash w.store k k' x x' :=
      run_inv (I := fun w : World => Clash w.store k k' x x') (fun _ e hw => hw.step e) hk es
    refine ⟨hw.first, hw.second, ?_⟩
    intro env session password token htoken
    simp only [List.mem_cons, List.not_mem_nil, or_false] at htoken
    rcases htoken with rfl | rfl
    · exact reset_answered hw.first password
    · exact reset_answered hw.second password

/-- Two sign-ups with one username, both checked before either is stored. -/
theorem raced_signups_lock_accounts_small :
    let store := (run (Pool.step (advance true tally (guests "carol"))) (Signups.start Store.empty) racing).shared.store
    store.users.rows.map (fun r => r.2.username) = [some "carol", some "carol"] ∧
      ∃ k k' : Nat, ∃ x x' : User, k ≠ k' ∧ (x.username = x'.username ∨ x.email = x'.email) ∧
        ∀ sessions es, (run (World.step tally) ⟨store, sessions⟩ es).store.users.get k = some x ∧
          (run (World.step tally) ⟨store, sessions⟩ es).store.users.get k' = some x' := by
  refine ⟨by decide, ?_⟩
  obtain ⟨k, k', x, x', hne, hshared, hrows⟩ := (raced_signups_lock_accounts true tally (guests "carol") Store.empty
    (accounts_of_no_users rfl) racing).2 (by decide)
  exact ⟨k, k', x, x', hne, hshared, fun sessions es => ⟨(hrows sessions es).1, (hrows sessions es).2.1⟩⟩

end Myflix
