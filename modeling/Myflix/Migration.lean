import Myflix.Mailing
import Myflix.Refinement

/- The migration that gave the users of a running installation their tokens
   (db/migrate/20170404165753_generate_tokens_for_existing_users.rb). Until then no
   user had one, and there was no table of invitations yet. The other developments
   about tokens start from an installation without users; this one carries them over
   to an installation that was upgraded.

   Correspondence (Ruby ↔ Lean):
     `user.update_column(:token, ...)`       ↔ `updateToken`
     `GenerateTokensForExistingUsers#change` ↔ `generateTokens`

   What is proved:
     1. `migrated_users_can_reset`: the migration changes nothing of the site, and
        in every later run the token of every user opens that user's reset form. -/
namespace Myflix
open Relational Rails Transition

def User.withToken (token : Option String) (x : User) : User := { x with token := token }

/-- `update_column` writes the one column, without validations. -/
def updateToken (rand : Nat → String) (s : Store) (id : Nat) : Store :=
  { s with
    users := s.users.update id (User.withToken (generateToken rand s))
    drawn := s.drawn + 1 }

/-- `User.all.each`, in the order in which the database returns the rows. -/
def generateTokens (rand : Nat → String) (s : Store) (all : List (Nat × User)) : Store :=
  all.foldl (fun s r => updateToken rand s r.1) s

/-! The loop. -/

section
variable {rand : Nat → String} {s : Store} {all : List (Nat × User)}

/-- What the loop has done after the rows it has seen. -/
structure Filled (rand : Nat → String) (s : Store) (all : List (Nat × User)) (s' : Store) : Prop where
  others : s' = { s with users := s'.users, drawn := s.drawn + all.length }
  seen : ∀ (i k : Nat) (x : User), all[i]? = some (k, x) →
    s'.users.get k = some (x.withToken (some (rand (s.drawn + i))))
  unseen : ∀ k, k ∉ all.map Prod.fst → s'.users.get k = s.users.get k

theorem filled (hkeys : (all.map Prod.fst).Nodup) (hstored : ∀ r ∈ all, s.users.get r.1 = some r.2) :
    Filled rand s all (generateTokens rand s all) := by
  -- over the rows in the order of the loop, the last one apart
  induction all using List.reverseRecOn with
  | nil => exact ⟨rfl, by simp, fun _ _ => rfl⟩
  | append_singleton all r ih =>
    rw [List.map_append, List.nodup_append] at hkeys
    obtain ⟨hnodup, -, hapart⟩ := hkeys
    have h := ih hnodup (fun x hx => hstored x (List.mem_append_left _ hx))
    have hnew : r.1 ∉ all.map Prod.fst := fun hm => hapart r.1 hm r.1 (by simp) rfl
    have hr : (generateTokens rand s all).users.get r.1 = some r.2 := by
      rw [h.unseen r.1 hnew]
      exact hstored r (by simp)
    have hdrawn : (generateTokens rand s all).drawn = s.drawn + all.length := by rw [h.others]
    have hstep : generateTokens rand s (all ++ [r]) = updateToken rand (generateTokens rand s all) r.1 := by
      simp [generateTokens]
    rw [hstep]
    refine ⟨?_, ?_, ?_⟩
    · rw [updateToken, h.others]
      simp [Nat.add_assoc]
    · intro i k x hi
      by_cases hlt : i < all.length
      · rw [List.getElem?_append_left hlt] at hi
        have hne : k ≠ r.1 := by
          rintro rfl
          exact hnew (List.mem_map.mpr ⟨_, List.mem_of_getElem? hi, rfl⟩)
        exact (Table.get_update_ne _ hne).trans (h.seen i k x hi)
      · rw [List.getElem?_append_right (by omega)] at hi
        obtain rfl : i = all.length := by
          have := (List.getElem?_eq_some_iff.mp hi).1
          simp only [List.length_cons, List.length_nil] at this
          omega
        obtain rfl : r = (k, x) := by simpa using hi
        simp only [updateToken, Table.get_update_self, hr, Option.map_some, generateToken, hdrawn]
    · intro k hk
      simp only [List.map_append, List.mem_append, List.map_cons, List.map_nil, List.mem_singleton, not_or] at hk
      exact (Table.get_update_ne _ hk.2).trans (h.unseen k hk.1)

end

/-! The installation after it. -/

section
variable {rand : Nat → String} {s s' : Store} {all : List (Nat × User)} (hall : all.Perm s.users.rows)
include hall

theorem keys_of_all : (all.map Prod.fst).Nodup := (hall.map Prod.fst).nodup_iff.mpr s.users.keys_nodup

theorem stored_of_all {r : Nat × User} (hr : r ∈ all) : s.users.get r.1 = some r.2 :=
  Table.get_eq_some.mpr (hall.mem_iff.mp hr)

/-- Every user is found in the loop, and has only another token after it. -/
theorem Filled.get_iff (h : Filled rand s all s') {k : Nat} {y : User} :
    s'.users.get k = some y ↔
      ∃ (i : Nat) (x : User), all[i]? = some (k, x) ∧ y = x.withToken (some (rand (s.drawn + i))) := by
  constructor
  · intro hy
    by_cases hk : k ∈ all.map Prod.fst
    · obtain ⟨⟨k, x⟩, hr, rfl⟩ := List.mem_map.mp hk
      obtain ⟨i, hi⟩ := List.getElem?_of_mem hr
      exact ⟨i, x, hi, Option.some.inj (hy.symm.trans (h.seen i k x hi))⟩
    · rw [h.unseen k hk] at hy
      exact absurd (List.mem_map.mpr ⟨(k, y), hall.mem_iff.mpr (Table.get_eq_some.mp hy), rfl⟩) hk
  · rintro ⟨i, x, hi, rfl⟩
    exact h.seen i k x hi

theorem Filled.tokensIssued (hr : Function.Injective rand) (h : Filled rand s all s') : TokensIssued rand s' where
  drawn := by
    intro k y hy
    obtain ⟨i, x, hi, rfl⟩ := (h.get_iff hall).mp hy
    refine ⟨s.drawn + i, ?_, rfl⟩
    have hlt := (List.getElem?_eq_some_iff.mp hi).1
    rw [h.others]
    show s.drawn + i < s.drawn + all.length
    omega
  distinct := by
    intro j k y z hy hz he
    obtain ⟨i, x, hi, rfl⟩ := (h.get_iff hall).mp hy
    obtain ⟨i', x', hi', rfl⟩ := (h.get_iff hall).mp hz
    have hii : s.drawn + i = s.drawn + i' := hr (Option.some.inj he)
    obtain rfl : i = i' := by omega
    rw [hi] at hi'
    exact congrArg Prod.fst (Option.some.inj hi')

/-- A user after it was one before, with the same columns but the token. -/
theorem Filled.user_before (h : Filled rand s all s') {k : Nat} {y : User} (hy : s'.users.get k = some y) :
    ∃ x token, s.users.get k = some x ∧ y = x.withToken token := by
  obtain ⟨i, x, hi, rfl⟩ := (h.get_iff hall).mp hy
  exact ⟨x, _, stored_of_all hall (List.mem_of_getElem? hi), rfl⟩

theorem Filled.user_after (h : Filled rand s all s') {k : Nat} (hk : (s.users.get k).isSome) :
    (s'.users.get k).isSome := by
  obtain ⟨x, hx⟩ := Option.isSome_iff_exists.mp hk
  obtain ⟨i, hi⟩ := List.getElem?_of_mem (hall.mem_iff.mpr (Table.get_eq_some.mp hx))
  rw [h.seen i k x hi]
  rfl

theorem Filled.appInv {sessions : Nat → Option Nat} (h : Filled rand s all s') (hw : AppInv ⟨s, sessions⟩) :
    AppInv ⟨s', sessions⟩ where
  accounts := by
    refine hw.accounts.of_same_identity ?_
    intro k y hy
    obtain ⟨x, token, hx, rfl⟩ := h.user_before hall hy
    exact ⟨x, hx, rfl, rfl⟩
  secrets := by
    intro k y hy
    obtain ⟨x, token, hx, rfl⟩ := h.user_before hall hy
    exact hw.secrets k x hx
  queues := by
    have hq := hw.queues
    rw [h.others]
    refine ⟨?_, hq.numbered, hq.nodup⟩
    intro k q hk
    obtain ⟨hu, hv⟩ := hq.stored k q hk
    exact ⟨h.user_after hall hu, hv⟩
  reviews := by
    have hr := hw.reviews
    rw [h.others]
    refine ⟨hr.once, ?_⟩
    intro k r hk
    obtain ⟨hu, hv⟩ := hr.stored k r hk
    exact ⟨h.user_after hall hu, hv⟩
  inviters := by
    have hi := hw.inviters
    rw [h.others]
    intro k i hk
    exact h.user_after hall (hi k i hk)
  graph := by
    have hg := hw.graph
    rw [h.others]
    refine ⟨?_, hg.loops, hg.once⟩
    intro k r hk
    obtain ⟨x, y, hx, hy, hsx, hsy⟩ := hg.ends k r hk
    exact ⟨x, y, hx, hy, h.user_after hall hsx, h.user_after hall hsy⟩
  sessions := by
    intro sid u hs
    exact h.user_after hall (hw.sessions sid u hs)

/-- Nobody sees a token on the site. -/
theorem Filled.site (h : Filled rand s all s') (sessions : Nat → Option Nat) : siteOf s' sessions = siteOf s sessions := by
  have hmembers : (siteOf s' sessions).members = (siteOf s sessions).members := by
    funext k
    show (s'.users.get k).map User.member = (s.users.get k).map User.member
    cases hy : s'.users.get k with
    | some y =>
      obtain ⟨x, token, hx, rfl⟩ := h.user_before hall hy
      rw [hx]
      rfl
    | none =>
      cases hx : s.users.get k with
      | none => rfl
      | some x =>
        have hsome := h.user_after hall (k := k) (by simp [hx])
        rw [hy] at hsome
        cases hsome
  refine Site.ext hmembers ?_ ?_ ?_ ?_ ?_ rfl
  · rw [h.others]; rfl
  · rw [h.others]; rfl
  · rw [h.others]; rfl
  · rw [h.others]; rfl
  · rw [h.others]; rfl

end

/-- **Upgraded users can reset their passwords.** In an installation with the invariants and without
    invitations, in whatever order the database returns the users and with a SecureRandom that never
    repeats: the migration changes nothing of the site, and after any later requests the token of
    every user opens the reset form of that user. -/
theorem migrated_users_can_reset (rand : Nat → String) (hr : Function.Injective rand) (w : World) (hw : AppInv w)
    (hi : w.store.invitations.rows = []) (all : List (Nat × User)) (hall : all.Perm w.store.users.rows)
    (es : List Event) :
    let w' : World := ⟨generateTokens rand w.store all, w.sessions⟩
    w'.site = w.site ∧ ∀ id user, (run (World.step rand) w' es).store.users.get id = some user →
      ResetOpens rand (run (World.step rand) w' es).store user.token id user := by
  intro w'
  have hfilled : Filled rand w.store all w'.store :=
    filled (keys_of_all hall) (fun r hr => stored_of_all hall hr)
  have hnone : w'.store.invitations.rows = [] := by
    rw [hfilled.others]
    exact hi
  have htokens : Tokens rand w' := by
    refine ⟨hfilled.appInv hall hw, hfilled.tokensIssued hall hr, ?_, ?_⟩
    · exact ⟨fun k i hk => absurd hk (Table.not_get_of_no_rows hnone),
        fun j k i i' hj => absurd hj (Table.not_get_of_no_rows hnone)⟩
    · intro k i hk
      exact absurd hk (Table.not_get_of_no_rows hnone)
  have hrun : Tokens rand (run (World.step rand) w' es) :=
    run_inv (I := Tokens rand) (fun _ e h => h.step hr e) htokens es
  exact ⟨hfilled.site hall w.sessions, fun id user hid => hrun.resetOpens hid⟩

/-- Alice has one token when the migration runs, and the next one after it. -/
theorem migrated_users_can_reset_small :
    let w := run (World.step tally) World.stocked collecting
    ResetOpens tally (generateTokens tally w.store w.store.users.rows) (some "a") 1
      ⟨some "alice", some "alice@example.com", some ⟨0, "password"⟩, some "a", none⟩ := by
  intro w
  exact (migrated_users_can_reset tally tally_injective w (appInv_stocked.run collecting) (by decide)
    w.store.users.rows (List.Perm.refl _) []).2 1
    ⟨some "alice", some "alice@example.com", some ⟨0, "password"⟩, some "a", none⟩ (by decide)

end Myflix
