import Mathlib.Data.Set.Function
import Myflix.ConcurrentSignup

/- What overlapping sign-ups leave behind. A request charges the card before it knows
   that the user can be stored: the INSERT is refused when a name is too long for its
   column, and the mail may fail after it. Where no query cache answers for the
   database, another request may also take the username or the email between the
   charge and the INSERT; the save then fails, the failure is not noticed, and the
   request goes on to link and to welcome a user that is not there.

   What is proved:
     1. `signups_consistent_iff`: once all requests have finished, charges and new
        users correspond, success is reported for exactly these, and every new
        relationship has two stored ends, exactly when no charged request was
        disturbed. One name of 256 characters is enough (`signups_inconsistent`). -/
namespace Myflix
open Relational Rails Transition Interleaving

section
variable {ι : Type}

/-- The row holds what the request submitted, as far as the columns hold it. -/
def IsUserOf (u : NewUser) (row : User) : Prop :=
  row.username = truncated u.username ∧ row.email = truncated u.email ∧ row.passwordDigest = u.passwordDigest

/-- The outcome of all requests, against the store they started from. -/
structure Consistent (s₀ : Store) (job : ι → SignupRequest) (c : Signups ι) : Prop where
  -- accepted charges and created users are in one-to-one correspondence
  once : c.shared.charges.Nodup
  users : ∃ own : ι → Nat,
    Set.BijOn own {i | i ∈ c.shared.charges} {k | s₀.users.get k = none ∧ (c.shared.store.users.get k).isSome} ∧
    ∀ i ∈ c.shared.charges, (c.phase i).userId = some (own i) ∧
      ∃ row, c.shared.store.users.get (own i) = some row ∧ IsUserOf (job i).user row
  -- success is reported for a charge that was accepted and a user that is stored
  success : ∀ i, (c.phase i).successful = true ↔
    i ∈ c.shared.charges ∧ ∃ k, (c.phase i).userId = some k ∧ (c.shared.store.users.get k).isSome
  edges : ∀ k r, s₀.relationships.get k = none → c.shared.store.relationships.get k = some r →
    EndsStored c.shared.store r

/-- The turn does not lose the user of a charged request: the cache answers for the database or
    nobody has taken the username or the email since the first check, the row fits its columns,
    and the mailer takes the mail. -/
def undisturbed (cached : Bool) (job : ι → SignupRequest) (c : Signups ι) (turn : ι × Env) : Bool :=
  match c.phase turn.1 with
  | .saving => cached || (job turn.1).user.valid c.shared.store.users
  | .inserting => (job turn.1).user.fits
  | .mailing _ => turn.2.delivers
  | _ => true

/-! Undisturbed runs. -/

/-- The id is that of a new row for the user. -/
def Own (s₀ s : Store) (u : NewUser) (id : Option Nat) : Prop :=
  ∃ k row, id = some k ∧ s₀.users.get k = none ∧ s.users.get k = some row ∧ IsUserOf u row

/-- What holds of one request in an undisturbed run, phase by phase. -/
def Sane (s₀ s : Store) (u : NewUser) (charged : Prop) : Phase → Prop
  | .validating => ¬ charged
  | .charging => ¬ charged
  | .saving => charged
  | .inserting => charged
  | .searching id => charged ∧ Own s₀ s u id
  | .following id invitation => charged ∧ Own s₀ s u id ∧ (s.users.get invitation.inviterId).isSome
  | .leading id inviter => charged ∧ Own s₀ s u id ∧ ∃ k, inviter = some k ∧ (s.users.get k).isSome
  | .mailing id => charged ∧ Own s₀ s u id
  | .finished id result =>
    (charged ∧ Own s₀ s u id ∧ result = .ok .done) ∨
      (¬ charged ∧ id = none ∧ ∃ r, result = .ok r ∧ r.successful = false)

section
variable {s₀ s s' : Store} {u : NewUser} {charged : Prop}

theorem Own.mono (h : UsersKept s s') {id : Option Nat} (ho : Own s₀ s u id) : Own s₀ s' u id := by
  obtain ⟨k, row, hid, hnew, hk, hrow⟩ := ho
  exact ⟨k, row, hid, hnew, h k row hk, hrow⟩

/-- The others' steps do not disturb it. -/
theorem Sane.mono (h : UsersKept s s') {p : Phase} (hp : Sane s₀ s u charged p) : Sane s₀ s' u charged p := by
  cases p with
  | validating | charging | saving | inserting => exact hp
  | searching id => exact ⟨hp.1, hp.2.mono h⟩
  | mailing id => exact ⟨hp.1, hp.2.mono h⟩
  | following id invitation => exact ⟨hp.1, hp.2.1.mono h, h.isSome hp.2.2⟩
  | leading id inviter =>
    obtain ⟨hc, ho, k, hk, hs⟩ := hp
    exact ⟨hc, ho.mono h, k, hk, h.isSome hs⟩
  | finished id result =>
    rcases hp with ⟨hc, ho, hr⟩ | hp
    · exact .inl ⟨hc, ho.mono h, hr⟩
    · exact .inr hp

/-- A request with an id is charged and owns a row under that id. -/
theorem Sane.own {p : Phase} (hp : Sane s₀ s u charged p) {k : Nat} (hk : p.userId = some k) :
    charged ∧ Own s₀ s u (some k) := by
  cases p with
  | validating | charging | saving | inserting => cases hk
  | searching id =>
    have hk : id = some k := hk
    exact hk ▸ hp
  | mailing id =>
    have hk : id = some k := hk
    exact hk ▸ hp
  | following id invitation =>
    have hk : id = some k := hk
    exact ⟨hp.1, hk ▸ hp.2.1⟩
  | leading id inviter =>
    have hk : id = some k := hk
    exact ⟨hp.1, hk ▸ hp.2.1⟩
  | finished id result =>
    have hk : id = some k := hk
    rcases hp with ⟨hc, ho, -⟩ | ⟨-, hid, -⟩
    · exact ⟨hc, hk ▸ ho⟩
    · rw [hid] at hk
      cases hk

end

/-- What an undisturbed run keeps. -/
structure Sound (s₀ : Store) (job : ι → SignupRequest) (c : Signups ι) : Prop where
  kept : UsersKept s₀ c.shared.store
  inviters : InvitersStored c.shared.store
  nodup : c.shared.charges.Nodup
  sane : ∀ i, Sane s₀ c.shared.store (job i).user (i ∈ c.shared.charges) (c.phase i)
  inj : ∀ i j k, (c.phase i).userId = some k → (c.phase j).userId = some k → i = j
  onto : ∀ k, s₀.users.get k = none → (c.shared.store.users.get k).isSome → ∃ i, (c.phase i).userId = some k
  edges : ∀ k r, s₀.relationships.get k = none → c.shared.store.relationships.get k = some r →
    EndsStored c.shared.store r

theorem EndsStored.mono {s s' : Store} (h : UsersKept s s') {r : Relationship} (hr : EndsStored s r) :
    EndsStored s' r := by
  obtain ⟨follower, leader, hf, hl, hfs, hls⟩ := hr
  exact ⟨follower, leader, hf, hl, h.isSome hfs, h.isSome hls⟩

variable {job : ι → SignupRequest} {s₀ : Store} {c : Signups ι}

theorem sound_start (hi : InvitersStored s₀) : Sound s₀ job (Signups.start s₀) where
  kept _ _ hk := hk
  inviters := hi
  nodup := List.nodup_nil
  sane _ := by
    show ¬ _ ∈ []
    simp
  inj _ _ _ hk := by cases hk
  onto k hk hs := by
    have hs : (s₀.users.get k).isSome = true := hs
    rw [hk] at hs
    cases hs
  edges k r hk hr := by
    have hr : s₀.relationships.get k = some r := hr
    rw [hk] at hr
    cases hr

/-- A finished request was charged, owns a row and reports success, or none of the three. -/
theorem Sound.finished_cases (h : Sound s₀ job c) {i : ι} (hdone : (c.phase i).done = true) :
    (i ∈ c.shared.charges ∧ (c.phase i).successful = true ∧ Own s₀ c.shared.store (job i).user (c.phase i).userId) ∨
      (i ∉ c.shared.charges ∧ (c.phase i).successful = false ∧ (c.phase i).userId = none) := by
  have hs := h.sane i
  cases hp : c.phase i with
  | finished id result =>
    rw [hp] at hs
    rcases hs with ⟨hc, ho, rfl⟩ | ⟨hc, rfl, r, rfl, hr⟩
    · exact .inl ⟨hc, rfl, ho⟩
    · exact .inr ⟨hc, hr, rfl⟩
  | validating | charging | saving | inserting | searching | following | leading | mailing =>
    rw [hp] at hdone
    cases hdone

/-- When all requests of an undisturbed run have finished, their outcome is consistent. -/
theorem Sound.consistent (h : Sound s₀ job c) (hdone : ∀ i, (c.phase i).done = true) : Consistent s₀ job c := by
  have hown : ∀ i, i ∈ c.shared.charges → ∃ row, (c.phase i).userId = some ((c.phase i).userId.getD 0) ∧
      s₀.users.get ((c.phase i).userId.getD 0) = none ∧
      c.shared.store.users.get ((c.phase i).userId.getD 0) = some row ∧ IsUserOf (job i).user row := by
    intro i hi
    rcases h.finished_cases (hdone i) with ⟨-, -, k, row, hk, hnew, hg, hrow⟩ | ⟨hc, -⟩
    · rw [hk]
      exact ⟨row, rfl, hnew, hg, hrow⟩
    · exact absurd hi hc
  refine ⟨h.nodup, ⟨fun i => (c.phase i).userId.getD 0, ⟨?_, ?_, ?_⟩, ?_⟩, ?_, h.edges⟩
  · intro i hi
    obtain ⟨row, -, hnew, hg, -⟩ := hown i hi
    exact ⟨hnew, by rw [hg]; rfl⟩
  · intro i hi j hj he
    obtain ⟨-, hki, -⟩ := hown i hi
    obtain ⟨-, hkj, -⟩ := hown j hj
    have he : (c.phase i).userId.getD 0 = (c.phase j).userId.getD 0 := he
    exact h.inj i j _ hki (he ▸ hkj)
  · intro k hk
    obtain ⟨i, hi⟩ := h.onto k hk.1 hk.2
    exact ⟨i, ((h.sane i).own hi).1, by simp [hi]⟩
  · intro i hi
    obtain ⟨row, hk, -, hg, hrow⟩ := hown i hi
    exact ⟨hk, row, hg, hrow⟩
  · intro i
    rcases h.finished_cases (hdone i) with ⟨hc, hsucc, k, row, hk, -, hg, -⟩ | ⟨hc, hsucc, -⟩
    · exact ⟨fun _ => ⟨hc, k, hk, by rw [hg]; rfl⟩, fun _ => hsucc⟩
    · refine ⟨?_, fun hx => absurd hx.1 hc⟩
      intro hx
      rw [hsucc] at hx
      cases hx

variable {turn : ι × Env}

/-- The id of the request whose turn it is: the one it has, or that of a row just inserted. -/
def IdMoves (c : Signups ι) (turn : ι × Env) (l : Ledger ι) (p : Phase) : Prop :=
  (p.userId = (c.phase turn.1).userId ∧ l.store.users = c.shared.store.users) ∨
  ((c.phase turn.1).userId = none ∧ p.userId = some c.shared.store.users.next ∧
    ∃ row, l.store.users = c.shared.store.users.insert row)

theorem IdMoves.kept {l : Ledger ι} {p : Phase} (h : IdMoves c turn l p) :
    UsersKept c.shared.store l.store := by
  rcases h with ⟨-, hu⟩ | ⟨-, -, row, hu⟩
  · exact UsersKept.of_eq hu
  · exact UsersKept.of_insert hu

/-- Nobody else has the id the request moves to. -/
theorem Sound.id_unshared (h : Sound s₀ job c) {l : Ledger ι} {p : Phase} (hid : IdMoves c turn l p) {j : ι} {k : Nat}
    (hj : j ≠ turn.1) (hp : p.userId = some k) : (c.phase j).userId ≠ some k := by
  intro hjk
  rcases hid with ⟨hsame, -⟩ | ⟨-, hnew, -⟩
  · exact hj (h.inj j turn.1 k hjk (hsame ▸ hp))
  · -- the ids of the others are those of stored rows
    obtain ⟨-, k', row, hk', -, hg, -⟩ := (h.sane j).own hjk
    have hk : k = c.shared.store.users.next := Option.some.inj (hp.symm.trans hnew)
    have hk' : k = k' := Option.some.inj hk'
    rw [← hk', hk, Table.get_next] at hg
    cases hg

variable [DecidableEq ι] {cached : Bool} {rand : Nat → String}

/-- Whoever has an id keeps it. -/
theorem IdMoves.stays {l : Ledger ι} {p : Phase} (hid : IdMoves c turn l p) {i : ι} {k : Nat}
    (hi : (c.phase i).userId = some k) : ((c.move turn.1 l p).phase i).userId = some k := by
  refine Pool.move_phase (P := fun q : Phase => q.userId = some k) hi ?_
  intro ht
  rcases hid with ⟨hsame, -⟩ | ⟨hnone, -⟩
  · rw [hsame]
    exact ht
  · rw [hnone] at ht
    cases ht

/-- A step of an undisturbed run, by what it leaves in the ledger. -/
theorem Sound.move (h : Sound s₀ job c) (l : Ledger ι) (p : Phase)
    (hadv : advance cached rand job turn.1 turn.2 c.shared (c.phase turn.1) = (l, p))
    (hinviters : InvitersStored l.store) (hnodup : l.charges.Nodup)
    (hcharges : ∀ j, j ≠ turn.1 → (j ∈ l.charges ↔ j ∈ c.shared.charges))
    (hsane : Sane s₀ l.store (job turn.1).user (turn.1 ∈ l.charges) p) (hid : IdMoves c turn l p)
    (hedges : ∀ k r, l.store.relationships.get k = some r →
      c.shared.store.relationships.get k = some r ∨ EndsStored l.store r) :
    Sound s₀ job (c.step (advance cached rand job) turn) := by
  rw [Pool.step_eq_move, hadv]
  refine ⟨h.kept.trans hid.kept, hinviters, hnodup, ?_, ?_, ?_, ?_⟩
  · refine Pool.all_move (s := l)
      (L := fun j (l : Ledger ι) (p : Phase) => Sane s₀ l.store (job j).user (j ∈ l.charges) p) hsane ?_
    intro j hj
    simp only [hcharges j hj]
    exact (h.sane j).mono hid.kept
  · exact Pool.move_inj h.inj (fun j k hj hp => h.id_unshared hid hj hp)
  · intro k hk hs
    have hs : (l.store.users.get k).isSome := hs
    by_cases hold : (c.shared.store.users.get k).isSome
    · obtain ⟨i, hi⟩ := h.onto k hk hold
      exact ⟨i, hid.stays hi⟩
    · -- the row is new, so this turn has inserted it
      rcases hid with ⟨-, hu⟩ | ⟨-, hnew, row, hu⟩
      · rw [hu] at hs
        exact absurd hs hold
      · rw [hu, Table.get_insert] at hs
        split at hs
        · next hkn => exact ⟨turn.1, by rw [Pool.move_phase_self, hnew, hkn]⟩
        · exact absurd hs hold
  · intro k r hk hr
    rcases hedges k r hr with hr | hr
    · exact (h.edges k r hk hr).mono hid.kept
    · exact hr

/-- A step that only moves the request on. -/
theorem Sound.quiet (h : Sound s₀ job c) (p : Phase)
    (hadv : advance cached rand job turn.1 turn.2 c.shared (c.phase turn.1) = (c.shared, p))
    (hsane : Sane s₀ c.shared.store (job turn.1).user (turn.1 ∈ c.shared.charges) p)
    (hid : p.userId = (c.phase turn.1).userId) : Sound s₀ job (c.step (advance cached rand job) turn) :=
  h.move c.shared p hadv h.inviters h.nodup (fun _ _ => Iff.rfl) hsane (.inl ⟨hid, rfl⟩) (fun _ _ hr => .inl hr)

/-- A step that adds an edge between two stored users. -/
theorem Sound.edge (h : Sound s₀ job c) (edge : Relationship) (p : Phase)
    (hadv : advance cached rand job turn.1 turn.2 c.shared (c.phase turn.1) =
      (⟨{ c.shared.store with relationships := c.shared.store.relationships.insert edge }, c.shared.charges⟩, p))
    (hsane : Sane s₀ c.shared.store (job turn.1).user (turn.1 ∈ c.shared.charges) p)
    (hid : p.userId = (c.phase turn.1).userId) (hends : EndsStored c.shared.store edge) :
    Sound s₀ job (c.step (advance cached rand job) turn) := by
  refine h.move _ p hadv h.inviters h.nodup (fun _ _ => Iff.rfl) (hsane.mono (UsersKept.of_eq rfl)) (.inl ⟨hid, rfl⟩) ?_
  intro k r hr
  rcases Table.get_insert_cases hr with ⟨rfl, -⟩ | hr
  · exact .inr hends
  · exact .inl hr

/-- The step that charges the card. -/
theorem Sound.charge (h : Sound s₀ job c) (hp : c.phase turn.1 = .charging)
    (hc : (signupCharge turn.2 (job turn.1).stripeToken).successful = true) :
    Sound s₀ job (c.step (advance cached rand job) turn) := by
  have hs : turn.1 ∉ c.shared.charges := by
    have := h.sane turn.1
    rwa [hp] at this
  refine h.move ⟨c.shared.store, c.shared.charges ++ [turn.1]⟩ .saving (by rw [hp, advance_charged hc])
    h.inviters ?_ ?_ ?_ (.inl ⟨by rw [hp]; rfl, rfl⟩) (fun _ _ hr => .inl hr)
  · -- a request charges once: at `charging` it has not charged yet
    rw [← List.concat_eq_append]
    exact h.nodup.concat hs
  · intro j hj
    simp [hj]
  · show turn.1 ∈ c.shared.charges ++ [turn.1]
    simp

/-- The step that inserts the user. -/
theorem Sound.insertUser (h : Sound s₀ job c) (hp : c.phase turn.1 = .inserting)
    (hf : (job turn.1).user.fits = true) : Sound s₀ job (c.step (advance cached rand job) turn) := by
  have hs : turn.1 ∈ c.shared.charges := by
    have := h.sane turn.1
    rwa [hp] at this
  have hnew : s₀.users.get c.shared.store.users.next = none := by
    cases hk : s₀.users.get c.shared.store.users.next with
    | none => rfl
    | some x =>
      -- a row of the first store would still be there
      have hx := h.kept _ _ hk
      rw [Table.get_next] at hx
      cases hx
  exact h.move ⟨c.shared.store.addUser rand (job turn.1).user, c.shared.charges⟩
    (.searching (some c.shared.store.users.next)) (by rw [hp, advance_inserted hf])
    (h.inviters.grow (addUser_keeps rand _ _) rfl) h.nodup (fun _ _ => Iff.rfl)
    ⟨hs, _, _, rfl, hnew, Table.get_insert_self _ _, rfl, rfl, rfl⟩
    (.inr ⟨by rw [hp]; rfl, rfl, _, rfl⟩) (fun _ _ hr => .inl hr)

/-- One undisturbed step. -/
theorem Sound.step (h : Sound s₀ job c) (hu : undisturbed cached job c turn = true) :
    Sound s₀ job (c.step (advance cached rand job) turn) := by
  have hs := h.sane turn.1
  unfold undisturbed at hu
  cases hp : c.phase turn.1 with
  | validating =>
    rw [hp] at hs
    by_cases hv : (job turn.1).user.valid c.shared.store.users = true
    · exact h.quiet .charging (by rw [hp, advance_valid hv]) hs (by rw [hp]; rfl)
    · exact h.quiet (.finished none (.ok .invalid)) (by rw [hp, advance_invalid hv])
        (.inr ⟨hs, rfl, _, rfl, rfl⟩) (by rw [hp]; rfl)
  | charging =>
    rw [hp] at hs
    by_cases hc : (signupCharge turn.2 (job turn.1).stripeToken).successful = true
    · exact h.charge hp hc
    · exact h.quiet (.finished none _) (by rw [hp, advance_declined hc]) (.inr ⟨hs, rfl, _, rfl, rfl⟩)
        (by rw [hp]; rfl)
  | saving =>
    rw [hp] at hs hu
    exact h.quiet .inserting (by rw [hp, advance_saved hu]) hs (by rw [hp]; rfl)
  | inserting =>
    rw [hp] at hu
    exact h.insertUser hp hu
  | searching id =>
    rw [hp] at hs
    cases hf : findInvitation turn.2 c.shared.store (job turn.1).invitationToken with
    | none => exact h.quiet (.mailing id) (by rw [hp]; simp only [advance, hf]) hs (by rw [hp]; rfl)
    | some r =>
      have hi := h.inviters r.1 r.2 (Table.findBy_some hf).1
      exact h.quiet (.following id r.2) (by rw [hp]; simp only [advance, hf]) ⟨hs.1, hs.2, hi⟩
        (by rw [hp]; rfl)
  | following id invitation =>
    rw [hp] at hs
    obtain ⟨hc, ⟨k, row, rfl, hnew, hk, hrow⟩, hi⟩ := hs
    refine h.edge ⟨some invitation.inviterId, some k⟩ (.leading (some k) (some invitation.inviterId))
      ?_ ⟨hc, ⟨k, row, rfl, hnew, hk, hrow⟩, _, rfl, hi⟩ (by rw [hp]; rfl) ⟨k, _, rfl, rfl, by rw [hk]; rfl, hi⟩
    rw [hp]
    simp only [advance, inviter_eq hi]
    rfl
  | leading id inviter =>
    rw [hp] at hs
    obtain ⟨hc, ⟨k, row, rfl, hnew, hk, hrow⟩, j, rfl, hj⟩ := hs
    refine h.edge ⟨some k, some j⟩ (.mailing (some k)) ?_ ⟨hc, k, row, rfl, hnew, hk, hrow⟩
      (by rw [hp]; rfl) ⟨j, k, rfl, rfl, hj, by rw [hk]; rfl⟩
    rw [hp]
    rfl
  | mailing id =>
    rw [hp] at hs hu
    have hw : welcome turn.2 = .ok .done := if_pos hu
    exact h.quiet (.finished id (.ok .done)) (by rw [hp]; simp only [advance, hw]) (.inl ⟨hs.1, hs.2, rfl⟩)
      (by rw [hp]; rfl)
  | finished id result =>
    rw [hp] at hs
    exact h.quiet (.finished id result) (by rw [hp]; rfl) hs (by rw [hp])

end

/-! Disturbed runs. -/

section
variable {ι : Type}

/-- What holds of one request in any run: it is charged before it saves, and its id is stored. -/
def Under (s : Store) (charged : Prop) : Phase → Prop
  | .validating => True
  | .charging => True
  | .saving => charged
  | .inserting => charged
  | .searching id => charged ∧ ∀ k, id = some k → (s.users.get k).isSome
  | .following id _ => charged ∧ ∀ k, id = some k → (s.users.get k).isSome
  | .leading id _ => charged ∧ ∀ k, id = some k → (s.users.get k).isSome
  | .mailing id => charged ∧ ∀ k, id = some k → (s.users.get k).isSome
  | .finished id _ => ∀ k, id = some k → (s.users.get k).isSome

/-- A charged request without a user, or whose answer is an exception. -/
def Lost (s : Store) (u : NewUser) (charged : Prop) : Phase → Prop
  | .searching id => charged ∧ id = none ∧ u.valid s.users ≠ true
  | .following id _ => charged ∧ id = none ∧ u.valid s.users ≠ true
  | .leading id _ => charged ∧ id = none ∧ u.valid s.users ≠ true
  | .mailing id => charged ∧ id = none ∧ u.valid s.users ≠ true
  | .finished id result => charged ∧ (id = none ∨ ∃ e, result = .error e)
  | _ => False

section
variable {s s' : Store} {u : NewUser} {charged charged' : Prop} {p : Phase}

theorem Under.mono (h : UsersKept s s') (hc : charged → charged') (hp : Under s charged p) :
    Under s' charged' p := by
  cases p with
  | validating | charging => trivial
  | saving | inserting => exact hc hp
  | searching id => exact ⟨hc hp.1, fun k hk => h.isSome (hp.2 k hk)⟩
  | following id invitation => exact ⟨hc hp.1, fun k hk => h.isSome (hp.2 k hk)⟩
  | leading id inviter => exact ⟨hc hp.1, fun k hk => h.isSome (hp.2 k hk)⟩
  | mailing id => exact ⟨hc hp.1, fun k hk => h.isSome (hp.2 k hk)⟩
  | finished id result => exact fun k hk => h.isSome (hp k hk)

theorem Under.stored (hp : Under s charged p) {k : Nat} (hk : p.userId = some k) : (s.users.get k).isSome := by
  cases p with
  | validating | charging | saving | inserting => cases hk
  | searching id => exact hp.2 k hk
  | following id invitation => exact hp.2 k hk
  | leading id inviter => exact hp.2 k hk
  | mailing id => exact hp.2 k hk
  | finished id result => exact hp k hk

/-- What was taken stays taken, so a lost user stays lost. -/
theorem Lost.mono (h : UsersKept s s') (hc : charged → charged') (hp : Lost s u charged p) :
    Lost s' u charged' p := by
  cases p with
  | validating | charging | saving | inserting => exact hp.elim
  | searching id => exact ⟨hc hp.1, hp.2.1, h.invalid hp.2.2⟩
  | following id invitation => exact ⟨hc hp.1, hp.2.1, h.invalid hp.2.2⟩
  | leading id inviter => exact ⟨hc hp.1, hp.2.1, h.invalid hp.2.2⟩
  | mailing id => exact ⟨hc hp.1, hp.2.1, h.invalid hp.2.2⟩
  | finished id result => exact ⟨hc hp.1, hp.2⟩

end

/-- What one step of a request does to the shared state and to the request, in any run. -/
structure Steps (l l' : Ledger ι) (i : ι) (p p' : Phase) : Prop where
  kept : UsersKept l.store l'.store
  charges : ∀ j, j ∈ l.charges → j ∈ l'.charges
  under : Under l.store (i ∈ l.charges) p → Under l'.store (i ∈ l'.charges) p'

/-- Nothing is written. -/
theorem Steps.quiet {l : Ledger ι} {i : ι} {p p' : Phase}
    (h : Under l.store (i ∈ l.charges) p → Under l.store (i ∈ l.charges) p') : Steps l l i p p' :=
  ⟨UsersKept.of_eq rfl, fun _ hj => hj, h⟩

theorem advance_steps (cached : Bool) (rand : Nat → String) (job : ι → SignupRequest) (i : ι) (env : Env) (l : Ledger ι) (p : Phase) :
    Steps l (advance cached rand job i env l p).1 i p (advance cached rand job i env l p).2 := by
  cases p with
  | validating =>
    by_cases hv : (job i).user.valid l.store.users = true
    · rw [advance_valid hv]
      exact .quiet (fun _ => trivial)
    · rw [advance_invalid hv]
      refine .quiet (fun _ k hk => ?_)
      cases hk
  | charging =>
    by_cases hc : (signupCharge env (job i).stripeToken).successful = true
    · rw [advance_charged hc]
      refine ⟨UsersKept.of_eq rfl, ?_, ?_⟩
      · intro j hj
        exact List.mem_append_left _ hj
      · intro _
        show i ∈ l.charges ++ [i]
        simp
    · rw [advance_declined hc]
      refine .quiet (fun _ k hk => ?_)
      cases hk
  | saving =>
    by_cases hv : (cached || (job i).user.valid l.store.users) = true
    · rw [advance_saved hv]
      exact .quiet (fun h => h)
    · rw [advance_lost hv]
      refine .quiet (fun h => ⟨h, fun k hk => ?_⟩)
      cases hk
  | inserting =>
    by_cases hf : (job i).user.fits = true
    · rw [advance_inserted hf]
      refine ⟨UsersKept.of_insert rfl, fun _ hj => hj, fun h => ⟨h, ?_⟩⟩
      intro k hk
      rw [Option.some.injEq] at hk
      rw [← hk]
      simp [Store.addUser]
    · rw [advance_refused hf]
      refine .quiet (fun _ k hk => ?_)
      cases hk
  | searching id =>
    simp only [advance]
    split
    · exact .quiet (fun h => h)
    · exact .quiet (fun h => h)
  | following id invitation =>
    cases hr : followInviter rand l.store (job i).user id (invitation.inviter l.store) with
    | error e =>
      rw [advance_follow_raises hr]
      exact .quiet (fun h => h.2)
    | ok r =>
      rw [advance_followed hr]
      exact ⟨relate_kept hr, fun _ hj => hj, fun h => ⟨h.1, relate_stored hr h.2⟩⟩
  | leading id inviter =>
    cases hr : leadInviter rand l.store (job i).user id inviter with
    | error e =>
      rw [advance_lead_raises hr]
      exact .quiet (fun h => h.2)
    | ok r =>
      rw [advance_led hr]
      exact ⟨relate_kept hr, fun _ hj => hj, fun h => ⟨h.1, relate_stored hr h.2⟩⟩
  | mailing id => exact .quiet (fun h => h.2)
  | finished id result => exact .quiet (fun h => h)

/-- A request whose user is lost goes on without one. -/
theorem advance_stays_lost {cached : Bool} {rand : Nat → String} {job : ι → SignupRequest} {i : ι} {env : Env} {l : Ledger ι} {p : Phase}
    (h : Lost l.store (job i).user (i ∈ l.charges) p) :
    Lost (advance cached rand job i env l p).1.store (job i).user (i ∈ (advance cached rand job i env l p).1.charges)
      (advance cached rand job i env l p).2 := by
  cases p with
  | validating | charging | saving | inserting => exact h.elim
  | searching id =>
    simp only [advance]
    split
    · exact h
    · exact h
  | following id invitation =>
    obtain ⟨hc, rfl, hv⟩ := h
    rw [advance_followed (relate_unsaved rand _ hv)]
    exact ⟨hc, rfl, hv⟩
  | leading id inviter =>
    obtain ⟨hc, rfl, hv⟩ := h
    rw [advance_led (relate_unsaved rand _ hv)]
    exact ⟨hc, rfl, hv⟩
  | mailing id => exact ⟨h.1, .inl h.2.1⟩
  | finished id result => exact h

/-- A lost request that has finished contradicts consistency. -/
theorem Lost.inconsistent {s₀ : Store} {job : ι → SignupRequest} {c : Signups ι} {i : ι}
    (h : Lost c.shared.store (job i).user (i ∈ c.shared.charges) (c.phase i))
    (hunder : Under c.shared.store (i ∈ c.shared.charges) (c.phase i)) (hdone : (c.phase i).done = true) :
    ¬ Consistent s₀ job c := by
  intro hcon
  obtain ⟨own, -, hown⟩ := hcon.users
  cases hp : c.phase i with
  | finished id result =>
    rw [hp] at h
    obtain ⟨hc, hlost⟩ := h
    have hid : (c.phase i).userId = some (own i) := (hown i hc).1
    rcases hlost with rfl | ⟨e, rfl⟩
    · rw [hp] at hid
      cases hid
    · have hsucc := (hcon.success i).mpr ⟨hc, own i, hid, hunder.stored hid⟩
      rw [hp] at hsucc
      cases hsucc
  | validating | charging | saving | inserting | searching | following | leading | mailing =>
    rw [hp] at hdone
    cases hdone

variable [DecidableEq ι] {job : ι → SignupRequest} {c : Signups ι} {turn : ι × Env}

/-- A turn that disturbs its request loses it. -/
theorem advance_disturbed {cached : Bool} (rand : Nat → String) (hu : undisturbed cached job c turn ≠ true)
    (hunder : Under c.shared.store (turn.1 ∈ c.shared.charges) (c.phase turn.1)) :
    Lost (c.step (advance cached rand job) turn).shared.store (job turn.1).user
      (turn.1 ∈ (c.step (advance cached rand job) turn).shared.charges) ((c.step (advance cached rand job) turn).phase turn.1) := by
  rw [Pool.step_phase_self]
  show Lost (advance cached rand job turn.1 turn.2 c.shared (c.phase turn.1)).1.store _
    (turn.1 ∈ (advance cached rand job turn.1 turn.2 c.shared (c.phase turn.1)).1.charges) _
  unfold undisturbed at hu
  cases hp : c.phase turn.1 with
  | validating | charging | searching | following | leading | finished =>
    rw [hp] at hu
    exact absurd rfl hu
  | saving =>
    rw [hp] at hu hunder
    rw [advance_lost hu]
    exact ⟨hunder, rfl, fun hv => hu (by rw [hv, Bool.or_true])⟩
  | inserting =>
    rw [hp] at hu hunder
    rw [advance_refused hu]
    exact ⟨hunder, .inl rfl⟩
  | mailing id =>
    rw [hp] at hu hunder
    have hw : welcome turn.2 = .error .deliveryError := if_neg hu
    simp only [advance, hw]
    exact ⟨hunder.1, .inr ⟨_, rfl⟩⟩

/-- In every run each request is charged before it saves, and ids are stored. -/
theorem under_run (cached : Bool) (rand : Nat → String) (job : ι → SignupRequest) (s₀ : Store) (turns : List (ι × Env)) (i : ι) :
    Under (run (Pool.step (advance cached rand job)) (Signups.start s₀) turns).shared.store
      (i ∈ (run (Pool.step (advance cached rand job)) (Signups.start s₀) turns).shared.charges)
      ((run (Pool.step (advance cached rand job)) (Signups.start s₀) turns).phase i) := by
  refine run_inv (I := fun c : Signups ι => ∀ i, Under c.shared.store (i ∈ c.shared.charges) (c.phase i)) ?_ ?_ turns i
  · intro c turn hc
    have hs := advance_steps cached rand job turn.1 turn.2 c.shared (c.phase turn.1)
    apply Pool.all_step (L := fun j (l : Ledger ι) (p : Phase) => Under l.store (j ∈ l.charges) p)
    · exact hs.under (hc turn.1)
    · intro j _
      exact (hc j).mono hs.kept (hs.charges j)
  · intro i
    trivial

/-- A lost request stays lost through the rest of the run. -/
theorem lost_run (cached : Bool) (rand : Nat → String) {i : ι} (h : Lost c.shared.store (job i).user (i ∈ c.shared.charges) (c.phase i))
    (turns : List (ι × Env)) :
    Lost (run (Pool.step (advance cached rand job)) c turns).shared.store (job i).user
      (i ∈ (run (Pool.step (advance cached rand job)) c turns).shared.charges)
      ((run (Pool.step (advance cached rand job)) c turns).phase i) := by
  refine run_inv (I := fun c : Signups ι => Lost c.shared.store (job i).user (i ∈ c.shared.charges) (c.phase i)) ?_ h turns
  intro c turn hc
  have hs := advance_steps cached rand job turn.1 turn.2 c.shared (c.phase turn.1)
  by_cases hi : i = turn.1
  · subst hi
    rw [Pool.step_phase_self]
    exact advance_stays_lost hc
  · rw [Pool.step_phase_ne c hi]
    exact hc.mono hs.kept (hs.charges i)

end

/-- **When overlapping sign-ups are consistent.** Take any number of sign-ups, interleaved step
    by step in any order, with or without a query cache, with Stripe accepting and declining as it
    likes, on a database where the inviters are stored. Once all have finished, their outcome is
    consistent exactly when no turn disturbed a charged request: the row fitted its columns, the
    welcome mail was delivered and, unless the cache answered for the database, the user was still
    valid when it was saved. -/
theorem signups_consistent_iff {ι : Type} [DecidableEq ι] (cached : Bool) (rand : Nat → String)
    (job : ι → SignupRequest) (s : Store) (hi : InvitersStored s) (turns : List (ι × Env))
    (hdone : ∀ i, ((run (Pool.step (advance cached rand job)) (Signups.start s) turns).phase i).done = true) :
    Consistent s job (run (Pool.step (advance cached rand job)) (Signups.start s) turns) ↔
      Along (Pool.step (advance cached rand job)) (fun c turn => undisturbed cached job c turn = true)
        (Signups.start s) turns := by
  refine ⟨?_, ?_⟩
  · intro hcon pre turn post he
    by_contra hu
    subst he
    have hlost := lost_run cached rand (advance_disturbed rand hu (under_run cached rand job s pre turn.1)) post
    rw [← run_cons, ← run_append] at hlost
    exact hlost.inconsistent (under_run cached rand job s _ turn.1) (hdone turn.1) hcon
  · intro hu
    have hsound : Sound s job (run (Pool.step (advance cached rand job)) (Signups.start s) turns) :=
      run_inv_of (fun c turn hc hu => hc.step hu) (sound_start hi) turns hu
    exact hsound.consistent hdone

/-- Alice has invited carol; the token is the first value of the stream. -/
def Store.invited : Store :=
  { Store.small with
    invitations := Table.empty.insert ⟨some "Carol", some "carol@example.com", 1, some "", some "Join!"⟩
    drawn := 1 }

theorem invitersStored_invited : InvitersStored Store.invited := by
  intro k i hk
  have hm : (k, i) ∈ [(1, _)] := Table.get_eq_some.mp hk
  simp only [List.mem_singleton, Prod.mk.injEq] at hm
  obtain ⟨rfl, rfl⟩ := hm
  decide

/-- Two sign-ups with the invitation: carol, and somebody with the name given. -/
def guests (name : String) (second : Bool) : SignupRequest :=
  let name := if second then name else "carol"
  ⟨⟨some name, some (if second then "dave@example.com" else "carol@example.com"), some "password",
    some ⟨0, "password"⟩⟩, none, some ""⟩

/-- Both validate and are charged; then one request runs to its end, and after it the other. -/
def racing : List (Bool × Env) :=
  [false, true, false, true, false, false, false, false, false, false, true, true, true, true, true, true].map
    (fun i => (i, Env.fair))

theorem signups_consistent_iff_small :
    Consistent Store.invited (guests "dave")
      (run (Pool.step (advance true tally (guests "dave"))) (Signups.start Store.invited) racing) :=
  (signups_consistent_iff true tally (guests "dave") Store.invited invitersStored_invited racing (by decide)).mpr
    (by decide)

/-- A username that does not fit its column. -/
def overlong : String := String.ofList (List.replicate 256 'a')

/-- What the run leaves when the second user has that name: two charges, one new user. -/
theorem overlong_charged :
    let c := run (Pool.step (advance true tally (guests overlong))) (Signups.start Store.invited) racing
    (∀ i, (c.phase i).done = true) ∧ c.shared.charges = [false, true] ∧
      c.shared.store.users.rows.map (fun r => r.2.username) = [some "alice", some "bob", some "carol"] ∧
      (c.phase true).userId = none ∧ (c.phase true).successful = false := by decide +kernel

/-- The second user has a name of 256 letters: both cards are charged, and the INSERT of the second
    user raises. Only carol is stored, and the second request ends in an exception. -/
theorem signups_inconsistent :
    let c := run (Pool.step (advance true tally (guests overlong))) (Signups.start Store.invited) racing
    (∀ i, (c.phase i).done = true) ∧ c.shared.charges = [false, true] ∧
      c.shared.store.users.rows.map (fun r => r.2.username) = [some "alice", some "bob", some "carol"] ∧
      (c.phase true).userId = none ∧ (c.phase true).successful = false ∧
      ¬ Consistent Store.invited (guests overlong) c := by
  obtain ⟨hdone, hcharges, husers, hnone, hfailed⟩ := overlong_charged
  refine ⟨hdone, hcharges, husers, hnone, hfailed, ?_⟩
  intro h
  obtain ⟨own, -, hown⟩ := h.users
  have hid := (hown true (by rw [hcharges]; decide)).1
  rw [hnone] at hid
  cases hid

end Myflix
