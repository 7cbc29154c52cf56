import Myflix.Schema
import Mathlib.Logic.Function.Basic

/- What the site is for, without tables, keys, parameters or answers: members who
   keep an ordered list of videos, say what they think of a video, follow each other
   and bring in friends. An `Action` is what somebody at a browser wants, and
   `Site.Does` is when the site does it and what it is afterwards; an action that
   cannot be done leaves the site as it is (`Site.Step`).

   What is proved:
     1. `Site.Sound.step`: lists without repetition, opinions and follows among those
        who are there, names and addresses that tell members apart. -/
namespace Myflix
open Rails

/-- A member, as the site knows them. -/
structure Member where
  username : Option String
  email : Option String
  password : Option Digest
  admin : Bool
  deriving DecidableEq, Repr

/-- The password is the member's. -/
def Member.knows (m : Member) (password : Option String) : Prop :=
  ∃ d, m.password = some d ∧ d.accepts password = true

/-- What a member says of a video. -/
structure Opinion where
  rating : Option Int
  content : Option String
  deriving DecidableEq, Repr

@[ext]
structure Site where
  members : Nat → Option Member
  videos : Nat → Option Video
  /-- the videos a member wants to see, in order -/
  queue : Nat → List Nat
  opinion : Nat → Nat → Option Opinion
  follows : Nat → Nat → Prop
  /-- the addresses a member has sent an invitation to -/
  invited : Nat → Option String → Prop
  /-- who sits at each browser -/
  browser : Nat → Option Nat

inductive Action where
  | nothing
  | enqueue (v : Nat)
  | dequeue (v : Nat)
  /-- put the list in this order, and have these ratings -/
  | arrange (order : List Nat) (ratings : Nat → Option (Option Int))
  | review (v : Nat) (rating : Int) (content : Option String)
  | follow (id : Nat)
  | unfollow (id : Nat)
  | invite (email : Option String)
  | join (member : Member) (inviter : Option Nat)
  | resetPassword (id : Nat) (password : Option Digest)
  | publish (video : Video)
  | logIn (email password : Option String)
  | logOut

namespace Site

/-- The name and the address are given and nobody has them. -/
structure Free (s : Site) (m : Member) : Prop where
  username : Param.blank m.username = false
  email : Param.blank m.email = false
  newUsername : ∀ id x, s.members id = some x → x.username ≠ m.username
  newEmail : ∀ id x, s.members id = some x → x.email ≠ m.email

/-- The action is done for the member at browser `b`. -/
inductive Does (s : Site) (b : Nat) : Action → Site → Prop
  | enqueue {u v} (hu : s.browser b = some u) (hv : (s.videos v).isSome) (hnew : v ∉ s.queue u) :
      Does s b (.enqueue v) { s with queue := Function.update s.queue u (s.queue u ++ [v]) }
  | dequeue {u v} (hu : s.browser b = some u) (hv : v ∈ s.queue u) :
      Does s b (.dequeue v) { s with queue := Function.update s.queue u ((s.queue u).filter (· != v)) }
  -- only what is in the list is rated, no review goes away and none changes its text
  | arrange {u order ratings} (hu : s.browser b = some u) (hperm : order.Perm (s.queue u))
      (hkeep : ∀ v, (s.opinion u v).isSome → (ratings v).isSome)
      (hother : ∀ v, v ∉ s.queue u → ratings v = (s.opinion u v).map Opinion.rating) :
      Does s b (.arrange order ratings) { s with
        queue := Function.update s.queue u order
        opinion := Function.update s.opinion u
          (fun v => (ratings v).map (fun n => ⟨n, (s.opinion u v).bind Opinion.content⟩)) }
  | review {u v n content} (hu : s.browser b = some u) (hv : (s.videos v).isSome) (hnew : s.opinion u v = none)
      (hn : 1 ≤ n ∧ n ≤ 5) :
      Does s b (.review v n content) { s with
        opinion := Function.update s.opinion u (Function.update (s.opinion u) v (some ⟨some n, content⟩)) }
  | follow {u id} (hu : s.browser b = some u) (hid : (s.members id).isSome) (hne : u ≠ id)
      (hnew : ¬ s.follows u id) :
      Does s b (.follow id) { s with follows := fun x y => s.follows x y ∨ (x = u ∧ y = id) }
  | unfollow {u id} (hu : s.browser b = some u) (hf : s.follows u id) :
      Does s b (.unfollow id) { s with follows := fun x y => s.follows x y ∧ ¬ (x = u ∧ y = id) }
  | invite {u email} (hu : s.browser b = some u) (hnew : ∀ id x, s.members id = some x → x.email ≠ email) :
      -- the address is kept as far as its column holds it
      Does s b (.invite email) { s with invited := fun x y => s.invited x y ∨ (x = u ∧ y = truncated email) }
  | join {id m} (hid : s.members id = none) (hfree : s.Free m) :
      Does s b (.join m none) { s with members := Function.update s.members id (some m) }
  -- whoever is brought in and the inviter follow each other
  | joinInvited {id m inviter email} (hid : s.members id = none) (hfree : s.Free m) (hi : s.invited inviter email) :
      Does s b (.join m (some inviter)) { s with
        members := Function.update s.members id (some m)
        follows := fun x y => s.follows x y ∨ (x = id ∧ y = inviter) ∨ (x = inviter ∧ y = id) }
  | resetPassword {id m password} (hid : s.members id = some m) :
      Does s b (.resetPassword id password)
        { s with members := Function.update s.members id (some { m with password := password }) }
  | publish {u m id video} (hu : s.browser b = some u) (hm : s.members u = some m) (hadmin : m.admin = true)
      (hid : s.videos id = none) :
      Does s b (.publish video) { s with videos := Function.update s.videos id (some video) }
  | logIn {id m email password} (hid : s.members id = some m) (he : m.email = email) (hp : m.knows password) :
      Does s b (.logIn email password) { s with browser := Function.update s.browser b (some id) }
  | logOut : Does s b .logOut { s with browser := Function.update s.browser b none }

/-- The action is done if it can be, and otherwise nothing changes. -/
def Step (s : Site) (b : Nat) (a : Action) (s' : Site) : Prop :=
  s.Does b a s' ∨ (s' = s ∧ ∀ t, ¬ s.Does b a t)

/-- What can be relied on. -/
structure Sound (s : Site) : Prop where
  queues : ∀ u, (s.queue u).Nodup
  queued : ∀ u v, v ∈ s.queue u → (s.members u).isSome ∧ (s.videos v).isSome
  opinions : ∀ u v, (s.opinion u v).isSome → (s.members u).isSome ∧ (s.videos v).isSome
  follows : ∀ u v, s.follows u v → u ≠ v ∧ (s.members u).isSome ∧ (s.members v).isSome
  inviters : ∀ u email, s.invited u email → (s.members u).isSome
  usernames : ∀ a b x y, s.members a = some x → s.members b = some y → x.username = y.username → a = b
  emails : ∀ a b x y, s.members a = some x → s.members b = some y → x.email = y.email → a = b
  browsers : ∀ b u, s.browser b = some u → (s.members u).isSome

section
variable {s s' : Site} {b : Nat} {a : Action}

theorem isSome_update {α : Type} {f : Nat → Option α} {k j : Nat} (x : α) (h : (f j).isSome) :
    (Function.update f k (some x) j).isSome := by
  by_cases hj : j = k
  · subst hj
    simp
  · rw [Function.update_of_ne hj]
    exact h

/-- More members and videos, and nothing said of the new ones. -/
theorem Sound.grow (h : s.Sound) {members : Nat → Option Member} {videos : Nat → Option Video}
    (hm : ∀ k, (s.members k).isSome → (members k).isSome) (hv : ∀ k, (s.videos k).isSome → (videos k).isSome)
    (husernames : ∀ a b x y, members a = some x → members b = some y → x.username = y.username → a = b)
    (hemails : ∀ a b x y, members a = some x → members b = some y → x.email = y.email → a = b) :
    ({ s with members := members, videos := videos } : Site).Sound where
  queues := h.queues
  queued u v hq := ⟨hm u (h.queued u v hq).1, hv v (h.queued u v hq).2⟩
  opinions u v ho := ⟨hm u (h.opinions u v ho).1, hv v (h.opinions u v ho).2⟩
  follows u v hf := ⟨(h.follows u v hf).1, hm u (h.follows u v hf).2.1, hm v (h.follows u v hf).2.2⟩
  inviters u email hi := hm u (h.inviters u email hi)
  usernames := husernames
  emails := hemails
  browsers b u hb := hm u (h.browsers b u hb)

/-- A column that told the members apart still does with a new member whose value nobody had. -/
theorem unique_update {column : Member → Option String} {id : Nat} {m : Member}
    (h : ∀ a b x y, s.members a = some x → s.members b = some y → column x = column y → a = b)
    (hnew : ∀ k x, s.members k = some x → k ≠ id → column x ≠ column m) (a b : Nat) (x y : Member)
    (ha : Function.update s.members id (some m) a = some x) (hb : Function.update s.members id (some m) b = some y)
    (he : column x = column y) : a = b := by
  by_cases hia : a = id
  · by_cases hib : b = id
    · rw [hia, hib]
    · rw [hia, Function.update_self] at ha
      rw [Function.update_of_ne hib] at hb
      obtain rfl := Option.some.inj ha
      exact absurd he.symm (hnew b y hb hib)
  · rw [Function.update_of_ne hia] at ha
    by_cases hib : b = id
    · rw [hib, Function.update_self] at hb
      obtain rfl := Option.some.inj hb
      exact absurd he (hnew a x ha hia)
    · rw [Function.update_of_ne hib] at hb
      exact h a b x y ha hb he

theorem Sound.join (h : s.Sound) (id : Nat) {m : Member} (hfree : s.Free m) :
    ({ s with members := Function.update s.members id (some m) } : Site).Sound :=
  h.grow (fun _ => isSome_update m) (fun _ hk => hk)
    (unique_update h.usernames (fun k x hk _ => hfree.newUsername k x hk))
    (unique_update h.emails (fun k x hk _ => hfree.newEmail k x hk))

theorem Sound.queue (h : s.Sound) {u : Nat} {l : List Nat} (hl : l.Nodup)
    (hv : ∀ v ∈ l, (s.members u).isSome ∧ (s.videos v).isSome) :
    ({ s with queue := Function.update s.queue u l } : Site).Sound where
  queues := by
    intro x
    by_cases hx : x = u
    · subst hx
      simpa using hl
    · simpa [Function.update_of_ne hx] using h.queues x
  queued := by
    intro x v hxv
    by_cases hx : x = u
    · subst hx
      exact hv v (by simpa using hxv)
    · exact h.queued x v (by simpa [Function.update_of_ne hx] using hxv)
  opinions := h.opinions
  follows := h.follows
  inviters := h.inviters
  usernames := h.usernames
  emails := h.emails
  browsers := h.browsers

theorem Sound.opinion (h : s.Sound) {u : Nat} {f : Nat → Option Opinion}
    (hf : ∀ v, (f v).isSome → (s.members u).isSome ∧ (s.videos v).isSome) :
    ({ s with opinion := Function.update s.opinion u f } : Site).Sound :=
  { h with
    opinions := by
      intro x v hxv
      by_cases hx : x = u
      · subst hx
        exact hf v (by simpa using hxv)
      · exact h.opinions x v (by simpa [Function.update_of_ne hx] using hxv) }

theorem Sound.does (h : s.Sound) (hd : s.Does b a s') : s'.Sound := by
  cases hd with
  | @enqueue u v hu hv hnew =>
    refine h.queue ?_ ?_
    · rw [List.nodup_append]
      refine ⟨h.queues u, List.nodup_singleton v, ?_⟩
      intro x hx y hy he
      rw [List.mem_singleton] at hy
      exact hnew (hy ▸ he ▸ hx)
    · intro x hx
      rcases List.mem_append.mp hx with hx | hx
      · exact h.queued u x hx
      · rw [List.mem_singleton.mp hx]
        exact ⟨h.browsers b u hu, hv⟩
  | @dequeue u v hu hv =>
    exact h.queue ((h.queues u).filter _) (fun x hx => h.queued u x (List.mem_filter.mp hx).1)
  | @arrange u order ratings hu hperm hkeep hother =>
    have hq : ∀ v ∈ order, (s.members u).isSome ∧ (s.videos v).isSome :=
      fun v hv => h.queued u v (hperm.mem_iff.mp hv)
    refine Sound.opinion (h.queue (hperm.nodup_iff.mpr (h.queues u)) hq) ?_
    intro v hv
    by_cases hmem : v ∈ s.queue u
    · exact h.queued u v hmem
    · rw [hother v hmem] at hv
      exact h.opinions u v (by simpa using hv)
  | @review u v n content hu hv hnew hn =>
    refine h.opinion ?_
    intro x hx
    by_cases hxv : x = v
    · subst hxv
      exact ⟨h.browsers b u hu, hv⟩
    · exact h.opinions u x (by simpa [Function.update_of_ne hxv] using hx)
  | @follow u id hu hid hne hnew =>
    refine { h with follows := ?_ }
    rintro x y (hf | ⟨rfl, rfl⟩)
    · exact h.follows x y hf
    · exact ⟨hne, h.browsers b x hu, hid⟩
  | @unfollow u id hu hf => exact { h with follows := fun x y hxy => h.follows x y hxy.1 }
  | @invite u email hu hnew =>
    refine { h with inviters := ?_ }
    rintro x y (hi | ⟨rfl, rfl⟩)
    · exact h.inviters x y hi
    · exact h.browsers b x hu
  | @join id m hid hfree => exact h.join id hfree
  | @joinInvited id m inviter email hid hfree hi =>
    have hold : (s.members inviter).isSome := h.inviters inviter email hi
    have hne : id ≠ inviter := by
      rintro rfl
      rw [hid] at hold
      cases hold
    refine { h.join id hfree with follows := ?_ }
    rintro x y (hf | ⟨rfl, rfl⟩ | ⟨rfl, rfl⟩)
    · exact (h.join id hfree).follows x y hf
    · exact ⟨hne, by simp, isSome_update m hold⟩
    · exact ⟨Ne.symm hne, isSome_update m hold, by simp⟩
  | @resetPassword id m password hid =>
    refine h.grow (fun _ => isSome_update _) (fun _ hk => hk) (unique_update h.usernames ?_)
      (unique_update h.emails ?_)
    · intro k x hk hne he
      exact hne (h.usernames k id x m hk hid he)
    · intro k x hk hne he
      exact hne (h.emails k id x m hk hid he)
  | @publish u m id video hu hm hadmin hid =>
    exact h.grow (fun _ hk => hk) (fun _ => isSome_update video) h.usernames h.emails
  | @logIn id m email password hid he hp =>
    refine { h with browsers := ?_ }
    intro x u hx
    by_cases hxb : x = b
    · subst hxb
      simp only [Function.update_self, Option.some.injEq] at hx
      simp [← hx, hid]
    · exact h.browsers x u (by simpa [Function.update_of_ne hxb] using hx)
  | logOut =>
    refine { h with browsers := ?_ }
    intro x u hx
    by_cases hxb : x = b
    · subst hxb
      simp at hx
    · exact h.browsers x u (by simpa [Function.update_of_ne hxb] using hx)

/-- **Every step keeps the site sound.** -/
theorem Sound.step (h : s.Sound) (hs : s.Step b a s') : s'.Sound := by
  rcases hs with hd | ⟨rfl, -⟩
  · exact h.does hd
  · exact h

end

end Site

end Myflix
