import Myflix.Refinement

/- From the queue page to `update_queue` and back to the queue page. The page has
   three fields for each item: a hidden one with its id, a text field with its
   ranking, and a select with the options 1 to 5 and a blank one, on the option that
   is the item's rating. The browser sends them in order, and an empty page sends
   nothing. How `params[:queue_items]` is read off the fields is the business of Rack;
   what is assumed of it is that it reads them row by row (`ReadsRows`).

   Correspondence (Haml ↔ Lean):
     `review_rating_options`                         ↔ `Stars`
     `options_for_select(..., queue_item.rating)`    ↔ `selected`
     the fields of a row of queue_items/index        ↔ `QueueRow.fields`
     `params[:queue_items]`                          ↔ `parse` of the fields

   What is proved:
     1. `queue_form_takes_effect`: what is typed and chosen on the page is what the
        next page shows, whatever others do in between.
     2. `queue_form_untouched`: the page submitted as it is keeps the list; it keeps
        the ratings exactly if each is 0 to 5 or not there. -/
namespace Myflix
open Relational Rails Transition

/-! The form. -/

/-- The numbers that can be chosen. -/
abbrev Stars := { n : Nat // 1 ≤ n ∧ n ≤ 5 }

/-- The option that is selected when the page is shown, the blank one if none is the rating. -/
def selected (rating : Option Int) : Option Stars :=
  rating.bind (fun n => if h : 1 ≤ n.toNat ∧ n.toNat ≤ 5 then some ⟨n.toNat, h⟩ else none)

/-- The value of an option. -/
def optionValue : Option Stars → String
  | none => ""
  | some n => toString n.1

/-- What is in the fields of a row when the form is sent. -/
structure QueueEdit where
  ranking : String
  rating : Option Stars

/-- A row nobody has touched. -/
def QueueRow.untouched (r : QueueRow) : QueueEdit := ⟨toString r.ranking, selected r.rating⟩

inductive QueueField where
  | id
  | ranking
  | rating
  deriving DecidableEq, Repr

def QueueRow.fields (r : QueueRow) (edit : QueueEdit) : List (QueueField × String) :=
  [(.id, toString r.id), (.ranking, edit.ranking), (.rating, optionValue edit.rating)]

/-- The form, sent. -/
def submit (parse : List (QueueField × String) → Option (List QueueItemData)) (rows : List QueueRow)
    (edit : QueueRow → QueueEdit) : Request :=
  .queueItemsUpdateQueue (parse (rows.flatMap (fun r => r.fields (edit r))))

/-- The entry of a row. -/
def QueueRow.entry (edit : QueueRow → QueueEdit) (r : QueueRow) : QueueItemData :=
  ⟨some (toString r.id), some (edit r).ranking, some (optionValue (edit r).rating)⟩

/-- What is used of the parser of the parameters: without fields the parameter is nil, and the
    fields of one row after the other are read as one entry for each row. -/
structure ReadsRows (parse : List (QueueField × String) → Option (List QueueItemData)) : Prop where
  nothing : parse [] = none
  rows : ∀ rows edit, rows ≠ [] →
    parse (rows.flatMap (fun r => QueueRow.fields r (edit r))) = some (rows.map (QueueRow.entry edit))

/-! The options. -/

theorem optionValue_int (o : Option Stars) :
    Param.int (some (optionValue o)) = some ((o.map (fun n => (n.1 : Int))).getD 0) := by
  cases o with
  | none => decide
  | some n => exact congrArg some (toI_toString (n.1 : Int))

theorem optionValue_valid (o : Option Stars) : ratingValid (some (optionValue o)) = o.isSome := by
  cases o with
  | none => decide
  | some n =>
    have hi : Rails.toI (toString n.1) = (n.1 : Int) := toI_toString (n.1 : Int)
    have hint : Rails.isInteger (toString n.1) = true := isInteger_toString (n.1 : Int)
    simp only [optionValue, ratingValid, Param.isInteger, Param.toI, hi, hint, Bool.true_and, Option.isSome_some,
      Bool.and_eq_true, decide_eq_true_eq]
    omega

/-- What a choice does to the rating of a video: a blank one clears a rating that is there to 0. -/
def chosen (old : Option (Option Int)) : Option Stars → Option (Option Int)
  | some n => some (some (n.1 : Int))
  | none => old.map (fun _ => some 0)

theorem rate_optionValue (old : Option (Option Int)) (o : Option Stars) :
    rate old (some (optionValue o)) = chosen old o := by
  cases old with
  | some x =>
    simp only [rate, optionValue_int]
    cases o <;> rfl
  | none =>
    simp only [rate, optionValue_valid, optionValue_int]
    cases o <;> rfl

/-! The page. -/

/-- The rows for a list of items, each with its video, and the ratings of the videos. -/
def rowsOf (l : List (Nat × Nat)) (rating : Nat → Option Int) : List QueueRow :=
  l.zipIdx.map (fun x => ⟨x.1.1, (x.2 : Int) + 1, x.1.2, rating x.1.2⟩)

section
variable {s s' : Store} {u : Nat} {env : Env}

theorem rowsOf_items (l : List (Nat × Nat)) (rating : Nat → Option Int) :
    (rowsOf l rating).map (fun r => (r.id, r.video)) = l := by
  rw [rowsOf, List.map_map]
  exact List.zipIdx_map_fst 0 l

theorem rowsOf_rankings (l : List (Nat × Nat)) (rating : Nat → Option Int) :
    (rowsOf l rating).map QueueRow.ranking = upTo l.length := by
  have h := List.zipIdx_map_snd 0 l
  rw [rowsOf, List.map_map, upTo, List.range_eq_range', ← h, List.map_map]
  rfl

theorem mem_rowsOf {l : List (Nat × Nat)} {rating : Nat → Option Int} {r : QueueRow} (h : r ∈ rowsOf l rating) :
    (r.id, r.video) ∈ l ∧ r.rating = rating r.video := by
  obtain ⟨x, hx, rfl⟩ := List.mem_map.mp h
  exact ⟨List.fst_mem_of_mem_zipIdx hx, rfl⟩

/-- The ratings the page shows. -/
def Store.shownRating (s : Store) (u v : Nat) : Option Int := (s.ratingOf u v).join

/-- What the queue page shows. -/
theorem queuePage_eq (h : QueueInv s) (env : Env) (u : Nat) :
    queuePage env s u = .ok (.queue (rowsOf (s.queueList u) (s.shownRating u))) := by
  have hsort : env.byRanking.sort (s.queueOf u) = s.listing u := sort_eq_listing (h.numbered u)
  have hrows : (s.listing u).mapM (queueRow s) = .ok ((s.listing u).map (fun r =>
      (⟨r.1, r.2.ranking, r.2.videoId, s.shownRating u r.2.videoId⟩ : QueueRow))) := by
    apply Raising.mapM_of_ok
    intro r hr
    obtain ⟨hg, hu⟩ := mem_queueOf.mp ((listing_perm s u).mem_iff.mp hr)
    obtain ⟨hus, hvs⟩ := h.stored r.1 r.2 hg
    rw [queueRow, rating_of_stored hus hvs, hu]
    rfl
  -- a numbered listing has its positions as rankings
  have hrank : (s.listing u).map (fun r => r.2.ranking) = upTo (s.listing u).length :=
    ((h.numbered u).perm (listing_perm s u)).map_eq (listing_sorted s u)
  rw [queuePage, hsort, hrows]
  refine congrArg (fun rows => Except.ok (Page.queue rows)) ?_
  apply List.ext_getElem
  · simp [rowsOf, Store.queueList]
  · intro i hi hi'
    have hri : ((s.listing u).map (fun r => r.2.ranking))[i]? = (upTo (s.listing u).length)[i]? := by rw [hrank]
    simp only [List.length_map] at hi
    simp only [upTo, List.getElem?_map, List.getElem?_eq_getElem hi, List.getElem?_range hi, Option.map_some,
      Option.some.injEq] at hri
    simp [rowsOf, Store.queueList, strip, hri]

theorem rowsOf_ids_nodup (s : Store) (u : Nat) (rating : Nat → Option Int) :
    ((rowsOf (s.queueList u) rating).map QueueRow.id).Nodup := by
  have hids : (rowsOf (s.queueList u) rating).map QueueRow.id = (s.queueList u).map Prod.fst := by
    rw [← rowsOf_items (s.queueList u) rating, List.map_map, rowsOf_items]
    rfl
  rw [hids, Store.queueList, List.map_map]
  exact listing_keys_nodup (listing_perm s u)

/-- One row has the id. -/
theorem filter_id {rows : List QueueRow} (hn : (rows.map QueueRow.id).Nodup) {r : QueueRow} (hr : r ∈ rows) :
    rows.filter (fun x => x.id == r.id) = [r] := by
  induction rows with
  | nil => cases hr
  | cons x rows ih =>
    rw [List.map_cons, List.nodup_cons] at hn
    rcases List.mem_cons.mp hr with rfl | hr
    · have hnone : rows.filter (fun x => x.id == r.id) = [] := by
        rw [List.filter_eq_nil_iff]
        intro y hy he
        exact hn.1 (List.mem_map.mpr ⟨y, hy, beq_iff_eq.mp he⟩)
      simp [hnone]
    · have hne : (x.id == r.id) = false := by
        rw [beq_eq_false_iff_ne]
        intro he
        exact hn.1 (List.mem_map.mpr ⟨r, hr, he.symm⟩)
      simp only [List.filter_cons, hne]
      exact ih hn.2 hr

variable {parse : List (QueueField × String) → Option (List QueueItemData)} {edit : QueueRow → QueueEdit}
  {rows : List QueueRow}

theorem entry_key (r : QueueRow) : Param.key (r.entry edit).id = some r.id := Param.key_toString r.id

/-- The one entry for a row. -/
theorem filter_entries (hn : (rows.map QueueRow.id).Nodup) {r : QueueRow} (hr : r ∈ rows) :
    (rows.map (QueueRow.entry edit)).filter (fun d => Param.key d.id == some r.id) = [r.entry edit] := by
  rw [List.filter_map, show (fun d : QueueItemData => Param.key d.id == some r.id) ∘ QueueRow.entry edit =
    fun x => x.id == r.id from funext (fun x => by simp [Function.comp, entry_key]), filter_id hn hr]
  rfl

theorem submittedRanking_entry (hn : (rows.map QueueRow.id).Nodup) {r : QueueRow} (hr : r ∈ rows) :
    submittedRanking s (rows.map (QueueRow.entry edit)) (r.id, r.video) = Rails.toI (edit r).ranking := by
  simp only [submittedRanking, lastEntry, filter_entries hn hr]
  rfl

/-- The texts in the fields for the positions are integers, within the range of an integer column. -/
def Typed (rows : List QueueRow) (edit : QueueRow → QueueEdit) : Prop :=
  ∀ r ∈ rows, Rails.isInteger (edit r).ranking = true ∧ fitsInteger (Rails.toI (edit r).ranking) = true

theorem accepted_entries (h : QueueInv s) (hu : (s.users.get u).isSome)
    (hrows : ∀ r ∈ rows, (r.id, r.video) ∈ s.queueList u) (ht : Typed rows edit) :
    Accepted s u (rows.map (QueueRow.entry edit)) := by
  rw [accepted_iff h hu ?_]
  · refine ⟨?_, ?_⟩
    · intro d hd
      obtain ⟨r, hr, rfl⟩ := List.mem_map.mp hd
      obtain ⟨q, hq, -, -⟩ := mem_queueList.mp (hrows r hr)
      exact ⟨r.id, q, entry_key r, hq, fun _ => (ht r hr).1⟩
    · -- every option fits the column
      intro pre d post v he _
      obtain ⟨r, -, rfl⟩ := List.mem_map.mp (he ▸ List.mem_append_right pre List.mem_cons_self)
      refine .inl ?_
      rw [show (r.entry edit).rating = some (optionValue (edit r).rating) from rfl, optionValue_int]
      cases (edit r).rating with
      | none => rfl
      | some n =>
        have hn := n.2
        simp only [fitsColumn, fitsInteger, Option.map_some, Option.getD_some, Bool.and_eq_true, decide_eq_true_eq]
        omega
  · intro d hd _
    obtain ⟨r, hr, rfl⟩ := List.mem_map.mp hd
    exact (ht r hr).2

theorem ratingsFor_entries (h : QueueInv s) (hn : (rows.map QueueRow.id).Nodup)
    (hrows : ∀ r ∈ rows, (r.id, r.video) ∈ s.queueList u) {r : QueueRow} (hr : r ∈ rows) :
    ratingsFor s u (rows.map (QueueRow.entry edit)) r.video = [some (optionValue (edit r).rating)] := by
  obtain ⟨q, hq, hown, hv⟩ := mem_queueList.mp (hrows r hr)
  have hv : q.videoId = r.video := hv
  rw [← hv, h.ratingsFor_eq hq hown, filter_entries hn hr]
  rfl

/-- The outcome of the form, for a user who is logged in and has something queued. -/
theorem submit_outcome (rand : Nat → String) (env : Env) (hparse : ReadsRows parse) (h : QueueInv s)
    {session : Option Nat} {user : User} (hu : ActsAs s session u user) (hne : s.queueList u ≠ [])
    (ht : Typed (rowsOf (s.queueList u) (s.shownRating u)) edit) :
    ∃ s₁, queueItems.updateQueueItems s u
        ((rowsOf (s.queueList u) (s.shownRating u)).map (QueueRow.entry edit)) = .ok s₁ ∧
      handle rand env s session (submit parse (rowsOf (s.queueList u) (s.shownRating u)) edit) =
        reply (normaliseQueueItemRankings env s₁ u) session (redirectTo .myQueue none) := by
  have hrows : ∀ r ∈ rowsOf (s.queueList u) (s.shownRating u), (r.id, r.video) ∈ s.queueList u :=
    fun r hr => (mem_rowsOf hr).1
  have hne' : rowsOf (s.queueList u) (s.shownRating u) ≠ [] := by
    intro he
    exact hne (by rw [← rowsOf_items (s.queueList u) (s.shownRating u), he]; rfl)
  obtain ⟨s₁, hr⟩ := (updateQueueItems_ok_iff _ _ _).mpr (accepted_entries h (by simp [hu.2]) hrows ht)
  refine ⟨s₁, hr, ?_⟩
  simp only [submit, hparse.rows _ edit hne', handle]
  exact updateQueue_of_ok hu hr

theorem reviewOf_of_select (h : s'.reviews.select (fun r => r.userId == u) = s.reviews.select (fun r => r.userId == u))
    (v : Nat) : s'.reviewOf u v = s.reviewOf u v := by
  have hfilter : ∀ x : Store, x.reviewOf u v =
      ((x.reviews.select (fun r => r.userId == u)).filter (fun r => r.2.videoId == v)).head? := by
    intro x
    simp only [Store.reviewOf, Table.select, List.filter_filter, Bool.and_comm]
  rw [hfilter, hfilter, h]

/-- Whatever others do, the page of a user stays as it is. -/
theorem queue_kept {rand : Nat → String} {w : World} {es : List Event}
    (h : Along (World.step rand) (fun w e => w.sessions e.sid ≠ some u) w es) :
    (run (World.step rand) w es).store.queueList u = w.store.queueList u ∧
      ∀ v, (run (World.step rand) w es).store.ratingOf u v = w.store.ratingOf u v := by
  refine run_inv_of (I := fun x : World => x.store.queueList u = w.store.queueList u ∧
    ∀ v, x.store.ratingOf u v = w.store.ratingOf u v) ?_ ⟨rfl, fun _ => rfl⟩ es h
  intro x e ⟨hq, hr⟩ hne
  have he := step_effect rand x e
  refine ⟨(queueList_of_eq (he.queueOf_other hne)).trans hq, ?_⟩
  intro v
  rw [← hr v, Store.ratingOf, reviewOf_of_select (he.reviews_other hne)]
  rfl

/-- A session stays its user's while others act. -/
theorem session_kept {rand : Nat → String} {w : World} {es : List Event} {sid : Nat} (hs : w.sessions sid = some u)
    (h : Along (World.step rand) (fun w e => w.sessions e.sid ≠ some u) w es) :
    (run (World.step rand) w es).sessions sid = some u := by
  refine run_inv_of (I := fun x : World => x.sessions sid = some u) ?_ hs es h
  intro x e hx hne
  rw [step_sessions_ne (w := x)]
  · exact hx
  · rintro rfl
    exact hne hx

end

/-- The rows that were shown are still those of the user. -/
theorem shown_rows {rand : Nat → String} {w : World} (h : QueueInv w.store) {u : Nat} {env : Env}
    {rows : List QueueRow} (hpage : queuePage env w.store u = .ok (.queue rows)) {es : List Event}
    (hes : Along (World.step rand) (fun w e => w.sessions e.sid ≠ some u) w es) :
    rows = rowsOf ((run (World.step rand) w es).store.queueList u)
      ((run (World.step rand) w es).store.shownRating u) := by
  obtain ⟨hq, hrat⟩ := queue_kept hes
  have hshown : (run (World.step rand) w es).store.shownRating u = w.store.shownRating u :=
    funext (fun v => congrArg Option.join (hrat v))
  rw [queuePage_eq h] at hpage
  rw [hq, hshown]
  exact (Page.queue.inj (Except.ok.inj hpage)).symm

/-! What is typed is what is shown. -/

/-- The next page has the same items, in the order of the positions that were typed. -/
structure ShowsOrder (rows : List QueueRow) (edit : QueueRow → QueueEdit) (rows' : List QueueRow) : Prop where
  items : (rows'.map (fun r => (r.id, r.video))).Perm (rows.map (fun r => (r.id, r.video)))
  rankings : rows'.map QueueRow.ranking = upTo rows.length
  order : ∀ a ∈ rows, ∀ b ∈ rows, Rails.toI (edit a).ranking < Rails.toI (edit b).ranking →
    Before (rows'.map QueueRow.id) a.id b.id

section
variable {s : Store} {u : Nat} {edit : QueueRow → QueueEdit}

theorem showsOrder_of (hn : ((rowsOf (s.queueList u) (s.shownRating u)).map QueueRow.id).Nodup)
    {l : List (Nat × Nat)} (rating : Nat → Option Int) (hperm : l.Perm (s.queueList u))
    (hsorted : l.Pairwise (fun a b =>
      submittedRanking s ((rowsOf (s.queueList u) (s.shownRating u)).map (QueueRow.entry edit)) a ≤
        submittedRanking s ((rowsOf (s.queueList u) (s.shownRating u)).map (QueueRow.entry edit)) b)) :
    ShowsOrder (rowsOf (s.queueList u) (s.shownRating u)) edit (rowsOf l rating) where
  items := by
    rw [rowsOf_items, rowsOf_items]
    exact hperm
  rankings := by
    rw [rowsOf_rankings, hperm.length_eq]
    simp [rowsOf]
  order := by
    intro a ha b hb hlt
    have hids : (rowsOf l rating).map QueueRow.id = l.map Prod.fst := by
      rw [← rowsOf_items l rating, List.map_map, rowsOf_items]
      rfl
    rw [hids]
    refine (before_of_sorted hsorted (hperm.mem_iff.mpr (mem_rowsOf ha).1)
      (hperm.mem_iff.mpr (mem_rowsOf hb).1) ?_).map Prod.fst
    rw [submittedRanking_entry hn ha, submittedRanking_entry hn hb]
    exact hlt

/-- The rating of a row's video after the form. -/
theorem submit_ratingOf (h : QueueInv s) {s₁ : Store}
    (hr : queueItems.updateQueueItems s u
      ((rowsOf (s.queueList u) (s.shownRating u)).map (QueueRow.entry edit)) = .ok s₁)
    {r : QueueRow} (hmem : r ∈ rowsOf (s.queueList u) (s.shownRating u)) :
    s₁.ratingOf u r.video = chosen (s.ratingOf u r.video) (edit r).rating := by
  rw [updateQueueItems_ratingOf hr, ratingsFor_entries h (rowsOf_ids_nodup s u _)
    (fun r hr => (mem_rowsOf hr).1) hmem, List.foldl_cons, List.foldl_nil]
  exact rate_optionValue _ _

end

/-- **The form takes effect.** A user looks at the queue page, others do what they like, and the
    form is sent with an integer that fits its column in every position field and one of the
    options chosen in every select. With something queued the request is answered with a redirect to the queue page and no
    message, and that page has the same items, numbered from 1, in the order of the positions
    typed; the rating of an item is the one chosen, and for the blank option 0 if the user has
    reviewed the video and blank otherwise. With nothing queued the request raises. -/
theorem queue_form_takes_effect (parse : List (QueueField × String) → Option (List QueueItemData))
    (hparse : ReadsRows parse) (rand : Nat → String) (w₀ : World) (h₀ : AppInv w₀) (pre : List Event) (sid u : Nat)
    (hu : (run (World.step rand) w₀ pre).sessions sid = some u) (env₀ : Env) (rows : List QueueRow)
    (hpage : queuePage env₀ (run (World.step rand) w₀ pre).store u = .ok (.queue rows)) (post : List Event)
    (hpost : Along (World.step rand) (fun w e => w.sessions e.sid ≠ some u) (run (World.step rand) w₀ pre) post)
    (edit : QueueRow → QueueEdit) (ht : Typed rows edit) (env env' : Env) :
    let w := run (World.step rand) w₀ (pre ++ post)
    let o := handle rand env w.store (w.sessions sid) (submit parse rows edit)
    (rows = [] → o = reply w.store (w.sessions sid) (raised .noMethodError)) ∧
    (rows ≠ [] → o.response = redirectTo .myQueue none ∧
      ∃ rows', queuePage env' o.store u = .ok (.queue rows') ∧ ShowsOrder rows edit rows' ∧
        ∀ r ∈ rows, ∀ r' ∈ rows', r'.id = r.id →
          r'.rating = (chosen (w.store.ratingOf u r.video) (edit r).rating).join) := by
  intro w o
  have h : AppInv w := h₀.run _
  have hw : w = run (World.step rand) (run (World.step rand) w₀ pre) post := run_append _ _ _ _
  have hrows := shown_rows (h₀.run pre).queues hpage hpost
  have hs := session_kept hu hpost
  rw [← hw] at hrows hs
  obtain ⟨user, hact⟩ := h.actsAs hs
  refine ⟨?_, ?_⟩
  · intro hnil
    show handle rand env w.store (w.sessions sid) (submit parse rows edit) = _
    simp only [hnil, submit, List.flatMap_nil, hparse.nothing, handle]
    exact updateQueue_of_nil hact
  · intro hne
    have hne' : w.store.queueList u ≠ [] := by
      intro he
      rw [hrows, he] at hne
      exact hne rfl
    rw [hrows] at ht
    obtain ⟨s₁, hr, ho⟩ := submit_outcome rand env hparse h.queues hact hne' ht
    have ho : o = reply (normaliseQueueItemRankings env s₁ u) (w.sessions sid) (redirectTo .myQueue none) := by
      show handle rand env w.store (w.sessions sid) (submit parse rows edit) = _
      rw [hrows]
      exact ho
    have hqi : QueueInv (normaliseQueueItemRankings env s₁ u) := (h.queues.reorder hr).normalise
    have hte : TakesEffect w.store (normaliseQueueItemRankings env s₁ u) u _ := takesEffect_of_ok h.queues hr
    rw [ho]
    refine ⟨rfl, _, queuePage_eq hqi env' u, ?_, ?_⟩
    · rw [hrows]
      exact showsOrder_of (rowsOf_ids_nodup _ _ _) _ hte.perm hte.sorted
    · intro r hmem r' hmem' hid
      obtain ⟨hm, hrating⟩ := mem_rowsOf hmem'
      rw [hrows] at hmem
      -- one item, one video
      have hvideo : r'.video = r.video := by
        obtain ⟨q, hq, -, hv⟩ := mem_queueList.mp (hte.perm.mem_iff.mp hm)
        obtain ⟨q', hq', -, hv'⟩ := mem_queueList.mp (mem_rowsOf hmem).1
        have hq : w.store.queueItems.get r'.id = some q := hq
        rw [hid, show w.store.queueItems.get r.id = some q' from hq'] at hq
        rw [show r'.video = q.videoId from hv.symm, show r.video = q'.videoId from hv'.symm, Option.some.inj hq]
      rw [hrating, hvideo]
      exact congrArg Option.join (submit_ratingOf h.queues hr hmem)

/-- A parser that takes the fields three by three. -/
def byThrees : List (QueueField × String) → List QueueItemData
  | (.id, id) :: (.ranking, ranking) :: (.rating, rating) :: rest =>
    ⟨some id, some ranking, some rating⟩ :: byThrees rest
  | _ => []

theorem byThrees_rows (rows : List QueueRow) (edit : QueueRow → QueueEdit) :
    byThrees (rows.flatMap (fun r => r.fields (edit r))) = rows.map (QueueRow.entry edit) := by
  induction rows with
  | nil => rfl
  | cons r rows ih =>
    rw [List.flatMap_cons, List.map_cons, ← ih]
    rfl

theorem readsRows_byThrees : ReadsRows (fun fields => queueItemsParam (byThrees fields)) where
  nothing := rfl
  rows rows edit h := by
    cases rows with
    | nil => exact absurd rfl h
    | cons r rows =>
      rw [byThrees_rows]
      rfl

/-- Alice has both videos queued and has reviewed the first. -/
def browsing : List Event :=
  collecting ++ [Event.fair 1 (.queueItemsCreate (some "2")),
    Event.fair 1 (.reviewsCreate (some "1") (some ⟨some "3", some "Fine."⟩))]

/-- The positions the other way round, no rating for the first video and 5 for the second. -/
def swapped (r : QueueRow) : QueueEdit :=
  if r.id = 1 then ⟨"20", none⟩ else ⟨"3", some ⟨5, by decide⟩⟩

theorem queue_form_takes_effect_small :
    let w := run (World.step tally) World.stocked (browsing ++
      [Event.fair 2 (.usersCreate (some ⟨some "bob", some "bob@example.com", some "password"⟩) none none)])
    let o := handle tally .fair w.store (w.sessions 1) (submit (fun fields => queueItemsParam (byThrees fields)) [⟨1, 1, 1, some 3⟩, ⟨2, 2, 2, none⟩] swapped)
    o.response = redirectTo .myQueue none ∧
      queuePage .fair o.store 1 = .ok (.queue [⟨2, 1, 2, some 5⟩, ⟨1, 2, 1, some 0⟩]) := by
  intro w o
  have h := queue_form_takes_effect _ readsRows_byThrees tally World.stocked appInv_stocked browsing 1 1 (by decide) .fair
    [⟨1, 1, 1, some 3⟩, ⟨2, 2, 2, none⟩] (by decide)
    [Event.fair 2 (.usersCreate (some ⟨some "bob", some "bob@example.com", some "password"⟩) none none)]
    (along_cons.mpr ⟨by decide, along_nil _⟩) swapped
    (by intro r hr; simp only [List.mem_cons, List.not_mem_nil, or_false] at hr; rcases hr with rfl | rfl <;> decide)
    .fair .fair
  exact ⟨(h.2 (by simp)).1, by decide⟩

/-! The page as it is. -/

theorem selected_value {rating : Option Int} {n : Stars} (h : selected rating = some n) : rating = some (n.1 : Int) := by
  obtain ⟨m, hm, he⟩ := Option.bind_eq_some_iff.mp h
  split at he
  · next hr =>
    obtain rfl := Option.some.inj he
    rw [hm]
    simp only [Option.some.injEq]
    omega
  · cases he

theorem selected_none {m : Int} (h : selected (some m) = none) : m < 1 ∨ 5 < m := by
  simp only [selected, Option.bind_some] at h
  split at h
  · cases h
  · omega

/-- A rating that comes back as it is. -/
theorem chosen_selected_iff (old : Option (Option Int)) :
    chosen old (selected old.join) = old ↔ ∀ n, old = some n → ∃ m, n = some m ∧ 0 ≤ m ∧ m ≤ 5 := by
  cases old with
  | none => exact iff_of_true rfl (by simp)
  | some n =>
    simp only [Option.join_some, Option.some.injEq, forall_eq']
    cases hs : selected n with
    | some stars =>
      have hn := selected_value hs
      have hr := stars.2
      refine iff_of_true (by simp [chosen, hn]) ⟨_, hn, by omega, by omega⟩
    | none =>
      cases n with
      | none => simp [chosen]
      | some m =>
        have hm := selected_none hs
        simp only [chosen, Option.map_some, Option.some.injEq, exists_eq_left']
        omega

theorem typed_untouched {l : List (Nat × Nat)} {rating : Nat → Option Int} (hlen : fitsInteger l.length = true) :
    Typed (rowsOf l rating) QueueRow.untouched := by
  intro r hr
  refine ⟨isInteger_toString r.ranking, ?_⟩
  have hm : r.ranking ∈ upTo l.length := by
    rw [← rowsOf_rankings l rating]
    exact List.mem_map_of_mem hr
  rw [mem_upTo] at hm
  rw [show (QueueRow.untouched r).ranking = toString r.ranking from rfl, toI_toString]
  simp only [fitsInteger, Bool.and_eq_true, decide_eq_true_eq] at hlen ⊢
  omega

/-- The positions of an untouched page are those of the list. -/
theorem untouched_keeps {s : Store} {u : Nat} {l : List (Nat × Nat)} (hperm : l.Perm (s.queueList u))
    (hsorted : l.Pairwise (fun a b =>
      submittedRanking s ((rowsOf (s.queueList u) (s.shownRating u)).map (QueueRow.entry QueueRow.untouched)) a ≤
        submittedRanking s ((rowsOf (s.queueList u) (s.shownRating u)).map (QueueRow.entry QueueRow.untouched)) b)) :
    l = s.queueList u := by
  let entries := (rowsOf (s.queueList u) (s.shownRating u)).map (QueueRow.entry QueueRow.untouched)
  have hmap : (s.queueList u).map (submittedRanking s entries) = upTo (s.queueList u).length := by
    calc (s.queueList u).map (submittedRanking s entries)
        = (rowsOf (s.queueList u) (s.shownRating u)).map
            (fun r => submittedRanking s entries (r.id, r.video)) := by
          conv_lhs => rw [← rowsOf_items (s.queueList u) (s.shownRating u), List.map_map]
          rfl
      _ = (rowsOf (s.queueList u) (s.shownRating u)).map QueueRow.ranking := by
          apply List.map_congr_left
          intro r hr
          rw [submittedRanking_entry (rowsOf_ids_nodup s u _) hr]
          exact toI_toString r.ranking
      _ = upTo (s.queueList u).length := rowsOf_rankings _ _
  have hnum : Numbered (submittedRanking s entries) (s.queueList u) := by
    rw [Numbered, hmap]
  refine List.Perm.eq_of_pairwise ?_ hsorted ?_ hperm
  · intro a b ha hb hab hba
    exact hnum.inj (hperm.mem_iff.mp ha) hb (Int.le_antisymm hab hba)
  · have hs := upTo_sorted (s.queueList u).length
    rw [← hmap, List.pairwise_map] at hs
    exact hs

/-- **The page sent as it is.** With something queued, the form that nobody has touched is
    accepted, and every user's list stays as it is. The ratings of the user stay as they are
    exactly if each rating of a queued video that is there is a number from 0 to 5: any other, and
    one that is NULL, is shown as the blank option and becomes 0. -/
theorem queue_form_untouched (parse : List (QueueField × String) → Option (List QueueItemData))
    (hparse : ReadsRows parse) (rand : Nat → String) (w₀ : World) (h₀ : AppInv w₀) (pre : List Event) (sid u : Nat)
    (hu : (run (World.step rand) w₀ pre).sessions sid = some u) (env₀ : Env) (rows : List QueueRow)
    (hpage : queuePage env₀ (run (World.step rand) w₀ pre).store u = .ok (.queue rows)) (post : List Event)
    (hpost : Along (World.step rand) (fun w e => w.sessions e.sid ≠ some u) (run (World.step rand) w₀ pre) post)
    (hne : rows ≠ []) (hlen : fitsInteger rows.length = true) (env : Env) :
    let w := run (World.step rand) w₀ (pre ++ post)
    let o := handle rand env w.store (w.sessions sid) (submit parse rows QueueRow.untouched)
    o.response = redirectTo .myQueue none ∧ (∀ x, o.store.queueList x = w.store.queueList x) ∧
      ((∀ v, o.store.ratingOf u v = w.store.ratingOf u v) ↔
        ∀ r ∈ rows, ∀ n, w.store.ratingOf u r.video = some n → ∃ m, n = some m ∧ 0 ≤ m ∧ m ≤ 5) := by
  intro w o
  have h : AppInv w := h₀.run _
  have hw : w = run (World.step rand) (run (World.step rand) w₀ pre) post := run_append _ _ _ _
  have hrows := shown_rows (h₀.run pre).queues hpage hpost
  have hs := session_kept hu hpost
  rw [← hw] at hrows hs
  obtain ⟨user, hact⟩ := h.actsAs hs
  have hne' : w.store.queueList u ≠ [] := by
    intro he
    rw [hrows, he] at hne
    exact hne rfl
  have hlen' : fitsInteger (w.store.queueList u).length = true := by
    rw [hrows] at hlen
    simpa [rowsOf] using hlen
  obtain ⟨s₁, hr, ho⟩ := submit_outcome rand env hparse h.queues hact hne' (typed_untouched hlen')
  have ho : o = reply (normaliseQueueItemRankings env s₁ u) (w.sessions sid) (redirectTo .myQueue none) := by
    show handle rand env w.store (w.sessions sid) (submit parse rows QueueRow.untouched) = _
    rw [hrows]
    exact ho
  have hte : TakesEffect w.store (normaliseQueueItemRankings env s₁ u) u _ := takesEffect_of_ok h.queues hr
  rw [ho]
  refine ⟨rfl, ?_, ?_⟩
  · intro x
    by_cases hx : x = u
    · rw [hx]
      exact untouched_keeps hte.perm hte.sorted
    · exact queueList_of_eq (hte.queues x hx)
  · have hrow : ∀ r ∈ rows, s₁.ratingOf u r.video =
        chosen (w.store.ratingOf u r.video) (selected (w.store.ratingOf u r.video).join) := by
      intro r hmem
      rw [hrows] at hmem
      rw [submit_ratingOf h.queues hr hmem, QueueRow.untouched, (mem_rowsOf hmem).2]
      rfl
    refine ⟨?_, ?_⟩
    · intro hkeep r hmem
      exact (chosen_selected_iff _).mp ((hrow r hmem).symm.trans (hkeep r.video))
    · intro hall v
      show s₁.ratingOf u v = w.store.ratingOf u v
      by_cases hv : v ∈ (w.store.queueList u).map Prod.snd
      · -- a queued video has its row
        obtain ⟨r, hmem, rfl⟩ : ∃ r ∈ rows, r.video = v := by
          rw [← rowsOf_items (w.store.queueList u) (w.store.shownRating u), ← hrows, List.map_map] at hv
          exact List.mem_map.mp hv
        rw [hrow r hmem]
        exact (chosen_selected_iff _).mpr (hall r hmem)
      · rw [updateQueueItems_ratingOf hr, ratingsFor_not_queued hv]
        rfl

/-- Alice's rating was set to 9 by a request no form makes; her page sets it to 0. -/
theorem queue_form_untouched_small :
    let w := run (World.step tally) World.stocked (browsing ++
      [Event.fair 1 (.queueItemsUpdateQueue (some [⟨some "1", some "1", some "9"⟩]))])
    let o := handle tally .fair w.store (w.sessions 1)
      (submit (fun fields => queueItemsParam (byThrees fields)) [⟨1, 1, 1, some 9⟩, ⟨2, 2, 2, none⟩] QueueRow.untouched)
    o.store.queueList 1 = w.store.queueList 1 ∧ ¬ ∀ v, o.store.ratingOf 1 v = w.store.ratingOf 1 v := by
  intro w o
  have h := queue_form_untouched _ readsRows_byThrees tally World.stocked appInv_stocked (browsing ++
    [Event.fair 1 (.queueItemsUpdateQueue (some [⟨some "1", some "1", some "9"⟩]))]) 1 1 (by decide) .fair
    [⟨1, 1, 1, some 9⟩, ⟨2, 2, 2, none⟩] (by decide) [] (along_nil _) (by simp) (by decide) .fair
  rw [List.append_nil] at h
  refine ⟨h.2.1 1, ?_⟩
  intro hkeep
  obtain ⟨m, hm, -, h5⟩ := h.2.2.mp hkeep ⟨1, 1, 1, some 9⟩ (by simp) (some 9) (by decide)
  obtain rfl := Option.some.inj hm
  exact absurd h5 (by decide)

end Myflix
