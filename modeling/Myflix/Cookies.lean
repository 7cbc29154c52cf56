import Myflix.Invariant

/- The session cookie. config/initializers/session_store.rb keeps sessions in the
   cookie store: a response carries the whole session, signed, and the server
   keeps nothing of it. `World` gives each browser the last cookie it got; here a
   request may come with any cookie the server has ever signed, the way somebody
   with a copy of one sends it (`Hit`). The signature is trusted: a cookie the
   server did not sign is no cookie.

   What is proved:
     1. `browsers_send_cookies`: every run of `World` is a run of the cookie store, in
        which each browser sends its last cookie.
     2. `cookies_cannot_be_revoked`: a cookie acts as a user exactly when it goes
        back to a login as that user, and then it does so after every later run:
        neither a logout nor a new password ends it. The invariants of the
        application hold in this system too. -/
namespace Myflix
open Relational Rails Transition

/-- The database, and the user id in every cookie the server has signed, the oldest first. -/
structure CookieStore where
  store : Store
  issued : List (Option Nat)

/-- One request, with the number of the cookie that comes with it. -/
structure Hit where
  cookie : Option Nat
  request : Request
  env : Env

namespace CookieStore

/-- The `session[:user_id]` of a request with the cookie. -/
def session (c : CookieStore) (cookie : Option Nat) : Option Nat :=
  cookie.bind (fun i => (c.issued[i]?).join)

def outcome (rand : Nat → String) (c : CookieStore) (v : Hit) : Outcome :=
  handle rand v.env c.store (c.session v.cookie) v.request

/-- The response carries a cookie of its own; the one that was sent stays as good as it was. -/
def step (rand : Nat → String) (c : CookieStore) (v : Hit) : CookieStore where
  store := (c.outcome rand v).store
  issued := c.issued ++ [(c.outcome rand v).session]

/-- The visit is a login as `u`, with the email and the password of `u` at that moment. -/
def LogsInAs (rand : Nat → String) (c : CookieStore) (v : Hit) (u : Nat) : Prop :=
  ∃ email password user, v.request = .sessionsCreate email password ∧
    (c.outcome rand v).session = some u ∧ (c.outcome rand v).response.reply = .redirectTo .home ∧
    c.store.users.get u = some user ∧ user.email = email ∧ user.authenticate password = .ok true

/-- The visit neither logs anybody in nor out. -/
def HandsOn (rand : Nat → String) (c : CookieStore) (v : Hit) : Prop :=
  v.request ≠ .sessionsDestroy ∧ ∀ email password, v.request = .sessionsCreate email password →
    (c.outcome rand v).response.reply ≠ .redirectTo .home

/-- Cookie `i` of a run goes back to a login as `u`: it is the one the login gave out, or the
    answer to a request with such a cookie. -/
inductive FromLogin (rand : Nat → String) (c₀ : CookieStore) (vs : List Hit) : Nat → Nat → Prop
  | login {pre v post u} (hvs : vs = pre ++ v :: post) (hin : (run (step rand) c₀ pre).LogsInAs rand v u) :
      FromLogin rand c₀ vs pre.length u
  | handedOn {pre v post i u} (hvs : vs = pre ++ v :: post) (hon : (run (step rand) c₀ pre).HandsOn rand v)
      (hi : v.cookie = some i) (hlt : i < pre.length) (hfrom : FromLogin rand c₀ vs i u) :
      FromLogin rand c₀ vs pre.length u

section
variable {rand : Nat → String} {c c₀ : CookieStore} {v : Hit} {vs : List Hit} {i u : Nat}

/-! One visit. -/

theorem lt_of_session (h : c.session (some i) = some u) : i < c.issued.length := by
  have h : (c.issued[i]?).join = some u := h
  by_contra hlt
  rw [List.getElem?_eq_none (Nat.le_of_not_lt hlt)] at h
  cases h

theorem session_old (hi : i < c.issued.length) : (c.step rand v).session (some i) = c.session (some i) := by
  show ((c.issued ++ _)[i]?).join = (c.issued[i]?).join
  rw [List.getElem?_append_left hi]

theorem session_new : (c.step rand v).session (some c.issued.length) = (c.outcome rand v).session := by
  show ((c.issued ++ [(c.outcome rand v).session])[c.issued.length]?).join = _
  rw [List.getElem?_concat_length]
  rfl

theorem session_keeps {cookie : Option Nat} (h : c.session cookie = some u) :
    (c.step rand v).session cookie = some u := by
  cases cookie with
  | none => cases h
  | some i => rw [session_old (lt_of_session h), h]

/-- What the cookie of the response holds. -/
theorem outcome_session_iff : (c.outcome rand v).session = some u ↔
    c.LogsInAs rand v u ∨ c.HandsOn rand v ∧ c.session v.cookie = some u := by
  by_cases hout : v.request = .sessionsDestroy
  · -- a logout gives out a cookie of nobody's
    have hnone : (c.outcome rand v).session = none := by
      rw [outcome, hout]
      rfl
    rw [hnone]
    constructor
    · intro h
      cases h
    · rintro (⟨email, password, user, hreq, -⟩ | ⟨hon, -⟩)
      · rw [hout] at hreq
        cases hreq
      · exact absurd hout hon.1
  by_cases hin : ∃ email password, v.request = .sessionsCreate email password
  · obtain ⟨email, password, hreq⟩ := hin
    have ho : c.outcome rand v = sessions.create v.env c.store (c.session v.cookie) email password := by
      rw [outcome, hreq]
      rfl
    rcases sessions_create_cases v.env c.store (c.session v.cookie) email password
      with ⟨hkeep, hno⟩ | ⟨id, user, hid, hmail, hauth, heq⟩
    · rw [← ho] at hkeep hno
      rw [hkeep]
      refine ⟨fun hu => .inr ⟨⟨hout, fun _ _ _ => hno⟩, hu⟩, ?_⟩
      rintro (⟨_, _, _, _, _, hhome, _⟩ | ⟨-, hu⟩)
      · exact absurd hhome hno
      · exact hu
    · have hhome : (c.outcome rand v).response.reply = .redirectTo .home := by rw [ho, heq]; rfl
      constructor
      · intro hu
        have hid' : some id = some u := by rw [← hu, ho, heq]; rfl
        cases hid'
        exact .inl ⟨email, password, user, hreq, hu, hhome, hid, hmail, hauth⟩
      · rintro (⟨_, _, _, _, hu, _⟩ | ⟨hon, -⟩)
        · exact hu
        · exact absurd hhome (hon.2 email password hreq)
  · have hkeep : (c.outcome rand v).session = c.session v.cookie := by
      rcases handle_session rand v.env c.store (c.session v.cookie) v.request with hs | hs | hs
      · exact hs
      · exact absurd hs hout
      · exact absurd hs hin
    rw [hkeep]
    refine ⟨fun hu => .inr ⟨⟨hout, fun email password hreq => absurd ⟨email, password, hreq⟩ hin⟩, hu⟩, ?_⟩
    rintro (⟨email, password, _, hreq, _⟩ | ⟨-, hu⟩)
    · exact absurd ⟨email, password, hreq⟩ hin
    · exact hu

/-! Runs. -/

theorem issued_length (c : CookieStore) (vs : List Hit) :
    (run (step rand) c vs).issued.length = c.issued.length + vs.length := by
  induction vs generalizing c with
  | nil => rfl
  | cons v vs ih =>
    rw [run_cons, ih, step, List.length_append, List.length_singleton, List.length_cons]
    omega

/-- No visit changes what an older cookie holds. -/
theorem session_run (vs : List Hit) (hi : i < c.issued.length) :
    (run (step rand) c vs).session (some i) = c.session (some i) := by
  induction vs generalizing c with
  | nil => rfl
  | cons v vs ih =>
    rw [run_cons, ih, session_old hi]
    show i < (c.issued ++ _).length
    rw [List.length_append]
    omega

/-- The cookies of a run that starts with none are numbered as its visits are. -/
theorem session_visit (rand : Nat → String) (h₀ : c₀.issued = []) (pre : List Hit) (v : Hit) (post : List Hit) :
    (run (step rand) c₀ (pre ++ v :: post)).session (some pre.length) =
      ((run (step rand) c₀ pre).outcome rand v).session := by
  have hlen : (run (step rand) c₀ pre).issued.length = pre.length := by
    rw [issued_length, h₀, List.length_nil, Nat.zero_add]
  have hnew : ((run (step rand) c₀ pre).step rand v).session (some pre.length) =
      ((run (step rand) c₀ pre).outcome rand v).session := by
    rw [← hlen, session_new]
  rw [run_append, run_cons, session_run, hnew]
  show pre.length < ((run (step rand) c₀ pre).issued ++ _).length
  rw [List.length_append, hlen, List.length_singleton]
  omega

theorem session_earlier (h₀ : c₀.issued = []) {pre : List Hit} (post : List Hit) (hi : i < pre.length) :
    (run (step rand) c₀ (pre ++ post)).session (some i) = (run (step rand) c₀ pre).session (some i) := by
  rw [run_append, session_run]
  rw [issued_length, h₀, List.length_nil]
  omega

/-- A cookie holds the user whose login it goes back to, and nobody else. -/
theorem session_iff (h₀ : c₀.issued = []) :
    (run (step rand) c₀ vs).session (some i) = some u ↔ FromLogin rand c₀ vs i u := by
  constructor
  · -- on the number of the cookie: a cookie that was handed on came in under a smaller one
    induction i using Nat.strong_induction_on with
    | _ i ih =>
      intro hs
      have hlt := lt_of_session hs
      rw [issued_length, h₀, List.length_nil, Nat.zero_add] at hlt
      have hvs : vs = vs.take i ++ vs[i] :: vs.drop (i + 1) := by
        rw [← List.drop_eq_getElem_cons hlt, List.take_append_drop]
      have hi : (vs.take i).length = i := List.length_take_of_le hlt.le
      have hv := session_visit rand h₀ (vs.take i) vs[i] (vs.drop (i + 1))
      rw [← hvs, hi, hs] at hv
      rcases outcome_session_iff.mp hv.symm with hin | ⟨hon, hold⟩
      · have := FromLogin.login hvs hin
        rwa [hi] at this
      · cases hc : vs[i].cookie with
        | none =>
          rw [hc] at hold
          cases hold
        | some j =>
          rw [hc] at hold
          have hj := lt_of_session hold
          rw [issued_length, h₀, List.length_nil, Nat.zero_add] at hj
          have hfrom : FromLogin rand c₀ vs j u := by
            apply ih j (hi ▸ hj)
            rw [hvs, session_earlier h₀ _ hj, hold]
          have := FromLogin.handedOn hvs hon hc hj hfrom
          rwa [hi] at this
  · intro h
    induction h with
    | login hvs hin =>
      rw [hvs, session_visit rand h₀]
      exact outcome_session_iff.mpr (.inl hin)
    | @handedOn pre v post i u hvs hon hi hlt _ ih =>
      rw [hvs, session_earlier h₀ _ hlt] at ih
      rw [hvs, session_visit rand h₀]
      exact outcome_session_iff.mpr (.inr ⟨hon, by rw [hi]; exact ih⟩)

/-! The application behind the cookies. -/

/-- The cookies taken for browser sessions. -/
def world (c : CookieStore) : World := ⟨c.store, fun i => c.session (some i)⟩

/-- The hit as a request of the session of its cookie; without one, of a session not used yet. -/
def event (c : CookieStore) (v : Hit) : Event := ⟨v.cookie.getD c.issued.length, v.request, v.env⟩

theorem world_outcome : c.world.outcome rand (c.event v) = c.outcome rand v := by
  have hs : c.world.sessions (c.event v).sid = c.session v.cookie := by
    cases hc : v.cookie with
    | none =>
      show c.session (some (v.cookie.getD c.issued.length)) = none
      rw [hc, Option.getD_none]
      show (c.issued[c.issued.length]?).join = none
      rw [List.getElem?_length]
      rfl
    | some i =>
      show c.session (some (v.cookie.getD c.issued.length)) = c.session (some i)
      rw [hc, Option.getD_some]
  rw [World.outcome, hs]
  rfl

/-- The invariants are about the database, and about sessions only that their users are stored. -/
theorem appInv_of_store {w : World} (h : AppInv w) {s : Store} (hs : s = w.store) {sessions : Nat → Option Nat}
    (hstored : ∀ sid u, sessions sid = some u → (w.store.users.get u).isSome) : AppInv ⟨s, sessions⟩ := by
  subst hs
  exact ⟨h.accounts, h.secrets, h.queues, h.reviews, h.inviters, h.graph, hstored⟩

/-- A hit keeps the invariants, whatever cookie comes with it. -/
theorem appInv_step (h : AppInv c.world) (v : Hit) : AppInv (c.step rand v).world := by
  have hstep : AppInv (c.world.step rand (c.event v)) := h.step (c.event v)
  have hstore : (c.step rand v).store = (c.world.step rand (c.event v)).store := by
    show _ = (c.world.outcome rand (c.event v)).store
    rw [world_outcome]
    rfl
  refine appInv_of_store hstep hstore ?_
  intro i u hi
  rcases Nat.lt_or_ge i c.issued.length with hlt | hge
  · -- the users of older cookies are still there
    rw [session_old hlt] at hi
    exact (step_effect rand c.world (c.event v)).keeps.1 u (h.sessions i u hi)
  · have hlast : i = c.issued.length := by
      have hlt := lt_of_session hi
      simp only [step, List.length_append, List.length_singleton] at hlt
      omega
    rw [hlast, session_new, ← world_outcome] at hi
    apply hstep.sessions (c.event v).sid
    rw [step_sessions_self, hi]

/-- Some cookie holds what each browser session holds. -/
structure Carries (w : World) (c : CookieStore) : Prop where
  store : c.store = w.store
  sessions : ∀ sid, ∃ cookie, c.session cookie = w.sessions sid

/-- A browser that sends its last cookie gets the answer of `World`. -/
theorem Carries.step (rand : Nat → String) {w : World} (h : Carries w c) (e : Event) :
    ∃ v : Hit, (v.request = e.request ∧ v.env = e.env) ∧ c.outcome rand v = w.outcome rand e ∧
      Carries (w.step rand e) (c.step rand v) := by
  obtain ⟨cookie, hcookie⟩ := h.sessions e.sid
  have ho : c.outcome rand ⟨cookie, e.request, e.env⟩ = w.outcome rand e := by
    show handle rand e.env c.store (c.session cookie) e.request = _
    rw [hcookie, h.store]
    rfl
  refine ⟨⟨cookie, e.request, e.env⟩, ⟨rfl, rfl⟩, ho, congrArg Outcome.store ho, ?_⟩
  intro sid
  by_cases hsid : sid = e.sid
  · refine ⟨some c.issued.length, ?_⟩
    rw [session_new, ho, hsid, step_sessions_self]
  · rw [step_sessions_ne hsid]
    cases hs : w.sessions sid with
    | none => exact ⟨none, rfl⟩
    | some u =>
      obtain ⟨cookie', hc⟩ := h.sessions sid
      exact ⟨cookie', session_keeps (hc.trans hs)⟩

/-- The runs of `World` are runs of the cookie store. -/
theorem browsers_send_cookies {w : World} (h : Carries w c) (es : List Event) :
    ∃ vs : List Hit, List.Forall₂ (fun e v => v.request = e.request ∧ v.env = e.env) es vs ∧
      Carries (run (World.step rand) w es) (run (CookieStore.step rand) c vs) := by
  induction es generalizing w c with
  | nil => exact ⟨[], .nil, h⟩
  | cons e es ih =>
    obtain ⟨v, hv, -, hstep⟩ := h.step rand e
    obtain ⟨vs, hvs, hrun⟩ := ih hstep
    exact ⟨v :: vs, .cons hv hvs, hrun⟩

/-- A new installation, before the first cookie. -/
structure New (c : CookieStore) : Prop where
  world : c.world.New
  issued : c.issued = []

end

/-- **No cookie can be revoked.** From a new installation, whatever requests come in with whatever
    cookies: the invariants of the application hold, a cookie acts as a user exactly when it goes
    back to a login with the email and the password of that user, and once it does, it does after
    all further requests, logouts with the same cookie and resets of the password among them. -/
theorem cookies_cannot_be_revoked (rand : Nat → String) (c₀ : CookieStore) (h₀ : c₀.New) (vs : List Hit) :
    AppInv (run (step rand) c₀ vs).world ∧
    (∀ i u, (∃ user, ActsAs (run (step rand) c₀ vs).store ((run (step rand) c₀ vs).session (some i)) u user) ↔
      FromLogin rand c₀ vs i u) ∧
    ∀ i u, FromLogin rand c₀ vs i u → ∀ later, ∃ user,
      ActsAs (run (step rand) c₀ (vs ++ later)).store ((run (step rand) c₀ (vs ++ later)).session (some i)) u user := by
  have hinv : ∀ vs, AppInv (run (step rand) c₀ vs).world :=
    run_inv (I := fun c : CookieStore => AppInv c.world) (fun _ v hc => appInv_step hc v) h₀.world.appInv
  refine ⟨hinv vs, ?_, ?_⟩
  · intro i u
    rw [← session_iff h₀.issued]
    refine ⟨fun ⟨_, h⟩ => h.1, fun h => ?_⟩
    exact (hinv vs).actsAs h
  · intro i u h later
    have hs := (session_iff h₀.issued).mpr h
    have hi := lt_of_session hs
    apply (hinv (vs ++ later)).actsAs
    show (run (step rand) c₀ (vs ++ later)).session (some i) = some u
    rw [run_append, session_run later hi, hs]

/-- Alice signs up and logs in (cookie 1), logs out and has the password changed. -/
def leaving : List Hit :=
  [⟨none, .usersCreate (some ⟨some "alice", some "alice@example.com", some "password"⟩) none none, .fair⟩,
   ⟨none, .sessionsCreate (some "alice@example.com") (some "password"), .fair⟩,
   ⟨some 1, .sessionsDestroy, .fair⟩,
   ⟨none, .passwordResetsCreate (some "") (some "new password"), .fair⟩]

/-- The cookie of the login still acts as alice; the password of that login does not open the account any more. -/
theorem cookies_cannot_be_revoked_small :
    let c := run (step tally) ⟨Store.empty, []⟩ leaving
    ¬ LetsIn .fair c.store none (some "alice@example.com") (some "password") 1 ∧
      ∃ user, ActsAs c.store (c.session (some 1)) 1 user := by
  intro c
  refine ⟨by decide, ?_⟩
  have hnew : New ⟨Store.empty, []⟩ := ⟨⟨rfl, rfl, rfl, rfl, rfl, fun _ => rfl⟩, rfl⟩
  refine ((cookies_cannot_be_revoked tally ⟨Store.empty, []⟩ hnew leaving).2.1 1 1).mpr ?_
  apply @FromLogin.login tally ⟨Store.empty, []⟩ leaving (leaving.take 1) leaving[1] (leaving.drop 2) 1 rfl
  exact ⟨_, _, ⟨some "alice", some "alice@example.com", some ⟨0, "password"⟩, some "", none⟩, rfl,
    by decide, by decide, by decide, rfl, by decide⟩

end CookieStore
end Myflix
