import Myflix.Access
import Myflix.Invitations
import Myflix.PasswordReset
import Myflix.QueueForm

/- The invariants of the application in one place. Each part has its own module;
   `AppInv` is what they say together of a world, so that a result which needs
   several of them can start from any database the application has kept, not only
   from a new one. -/
namespace Myflix
open Relational Rails Transition

structure AppInv (w : World) : Prop where
  accounts : Accounts w.store
  secrets : SecretsPresent w.store
  queues : QueueInv w.store
  reviews : ReviewInv w.store
  inviters : InvitersStored w.store
  graph : FollowGraph w.store
  sessions : ∀ sid u, w.sessions sid = some u → (w.store.users.get u).isSome

section
variable {rand : Nat → String} {w : World}

/-- A request that changes neither the store nor its session changes nothing. -/
theorem step_eq_self {e : Event} (hs : (w.outcome rand e).store = w.store)
    (hsession : (w.outcome rand e).session = w.sessions e.sid) : w.step rand e = w := by
  unfold World.step
  rw [hs, hsession, Function.update_eq_self]

theorem step_sessions_self (e : Event) : (w.step rand e).sessions e.sid = (w.outcome rand e).session :=
  Function.update_self e.sid _ w.sessions

theorem step_sessions_ne {e : Event} {sid : Nat} (h : sid ≠ e.sid) :
    (w.step rand e).sessions sid = w.sessions sid := Function.update_of_ne h _ w.sessions

/-- A session is a stored user's: it was one before, or it is the one that has just logged in. -/
theorem AppInv.step_sessions (h : AppInv w) (e : Event) (sid u : Nat) (hs : (w.step rand e).sessions sid = some u) :
    ((w.step rand e).store.users.get u).isSome := by
  have hk := (step_effect rand w e).keeps.1
  by_cases hsid : sid = e.sid
  · subst hsid
    rw [step_sessions_self] at hs
    rcases handle_session rand e.env w.store (w.sessions e.sid) e.request with ho | ho | ⟨email, password, ho⟩
    · exact hk u (h.sessions e.sid u (ho ▸ hs))
    · rw [World.outcome, ho] at hs
      cases hs
    · rw [outcome_sessionsCreate rand w ho] at hs
      rcases sessions_create_cases e.env w.store (w.sessions e.sid) email password
        with ⟨hkeep, -⟩ | ⟨id, user, hid, -, -, heq⟩
      · exact hk u (h.sessions e.sid u (hkeep ▸ hs))
      · rw [heq] at hs
        obtain rfl : id = u := Option.some.inj hs
        exact hk id (by simp [hid])
  · rw [step_sessions_ne hsid] at hs
    exact hk u (h.sessions sid u hs)

/-- Every request keeps the invariants. -/
theorem AppInv.step (h : AppInv w) (e : Event) : AppInv (w.step rand e) := by
  have he := step_effect rand w e
  exact ⟨h.accounts.effect he, h.secrets.effect h.accounts he, h.queues.effect he, h.reviews.effect he,
    h.inviters.effect he, h.graph.effect h.inviters he, h.step_sessions e⟩

theorem AppInv.run (h : AppInv w) (es : List Event) : AppInv (run (World.step rand) w es) :=
  run_inv (fun _ e hw => hw.step e) h es

/-- The user of a session. -/
theorem AppInv.actsAs (h : AppInv w) {sid u : Nat} (hs : w.sessions sid = some u) :
    ∃ user, ActsAs w.store (w.sessions sid) u user := by
  obtain ⟨user, hu⟩ := Option.isSome_iff_exists.mp (h.sessions sid u hs)
  exact ⟨user, hs, hu⟩

end

/-- A new installation: videos, and nothing else yet. -/
structure World.New (w : World) : Prop where
  users : w.store.users.rows = []
  queueItems : w.store.queueItems.rows = []
  reviews : w.store.reviews.rows = []
  relationships : w.store.relationships.rows = []
  invitations : w.store.invitations.rows = []
  sessions : ∀ sid, w.sessions sid = none

/-- A new installation has the invariants. -/
theorem World.New.appInv {w : World} (h : w.New) : AppInv w where
  accounts := accounts_of_no_users h.users
  secrets := fun _ _ hk => absurd hk (Table.not_get_of_no_rows h.users)
  queues := queueInv_of_no_items h.queueItems
  reviews := reviewInv_of_no_reviews h.reviews
  inviters := fun _ _ hk => absurd hk (Table.not_get_of_no_rows h.invitations)
  graph := followGraph_of_no_relationships h.relationships
  sessions := by
    intro sid u hs
    rw [h.sessions sid] at hs
    cases hs

end Myflix
