import Myflix.QueuePage

/- The pages show the site. `app_refines_site` says what requests do to the site;
   here is what people see of it. `Site.Shows` says for each page what it has to
   show of the site to whom: every review of the video and each once, the queue in
   its order, whom the user follows, the newest videos of each category. Nothing
   of the tables is left in it but the order in which the database lists what the
   source does not sort.

   What is proved:
     1. `pages_show_site`: along every run, every page an action renders for a user
        who is logged in shows the site as it is. -/
namespace Myflix
open Relational Rails Transition

/-! What a page has to show. -/

/-- The video is in the category. -/
def Site.Holds (site : Site) (c v : Nat) : Prop := ∃ x, site.videos v = some x ∧ x.categoryId = some (c : Int)

/-- `a` is at least as new as `b`. -/
def Site.Newer (site : Site) (a b : Nat) : Prop :=
  ∀ x y, site.videos a = some x → site.videos b = some y → y.createdAt ≤ x.createdAt

/-- The newest of the videos of a category, six at most: those left out are no newer. -/
structure Site.Recent (site : Site) (c : Nat) (videos : List Nat) : Prop where
  nodup : videos.Nodup
  sorted : videos.Pairwise site.Newer
  holds : ∀ v ∈ videos, site.Holds c v
  few : videos.length ≤ 6
  rest : ∀ v, site.Holds c v → v ∉ videos → videos.length = 6 ∧ ∀ a ∈ videos, site.Newer a v

/-- All the videos of a category, the newest first. -/
structure Site.All (site : Site) (c : Nat) (videos : List Nat) : Prop where
  nodup : videos.Nodup
  sorted : videos.Pairwise site.Newer
  holds : ∀ v, v ∈ videos ↔ site.Holds c v

/-- The videos a search finds, the oldest first: those whose title matches, and none for a blank string. -/
structure Site.Found (site : Site) (searchString : Param) (videos : List Nat) : Prop where
  nodup : videos.Nodup
  sorted : videos.Pairwise (fun a b => site.Newer b a)
  found : ∀ v, v ∈ videos ↔ ∃ t x title, searchString = some t ∧ Rails.blank t = false ∧
    site.videos v = some x ∧ x.title = some title ∧ TitleLike t title

/-- A row of the people page. -/
structure Site.Person (site : Site) (row : PersonRow) : Prop where
  queued : row.queued = (site.queue row.leader).length
  followers : ∃ l : List Nat, l.Nodup ∧ (∀ x, x ∈ l ↔ site.follows x row.leader) ∧ l.length = row.followers

/-- What the page shows to user `u` who has sent the request. -/
def Site.Shows (categories : Table Category) (site : Site) (u : Nat) (req : Request) : Page → Prop
  | .home shelves => ∃ ids : List Nat, ids.Nodup ∧ (∀ c, c ∈ ids ↔ (categories.get c).isSome) ∧
      List.Forall₂ (fun c shelf => (categories.get c).bind Category.name = some shelf.name ∧
        site.Recent c shelf.videos) ids shelves
  | .category name videos => req = .categoriesShow (some name) ∧
      ∃ c x, categories.get c = some x ∧ x.name = some name ∧ site.All c videos
  | .search videos => ∃ p, req = .videosSearch p ∧ site.Found p videos
  | .video id queueable reviews => req.asksFor.key = some id ∧ (queueable = true ↔ id ∉ site.queue u) ∧
      (reviews.map ReviewRow.user).Nodup ∧
      ∀ x rating content, ⟨x, rating, content⟩ ∈ reviews ↔ site.opinion x id = some ⟨rating, content⟩
  | .queue rows => rows.map QueueRow.video = site.queue u ∧ rows.map QueueRow.ranking = upTo rows.length ∧
      ∀ row ∈ rows, row.rating = (site.opinion u row.video).bind Opinion.rating
  | .people rows => (rows.map PersonRow.leader).Nodup ∧
      (∀ x, x ∈ rows.map PersonRow.leader ↔ site.follows u x) ∧ ∀ row ∈ rows, site.Person row
  | .profile id followable collection reviews => req.asksFor.key = some id ∧
      (followable = true ↔ u ≠ id ∧ ¬ site.follows u id) ∧
      collection.map CollectionRow.video = site.queue id ∧
      (∀ row ∈ collection, ∃ c, site.Holds c row.video ∧ (categories.get c).bind Category.name = some row.category) ∧
      (reviews.map AuthoredRow.video).Nodup ∧
      ∀ v rating content, ⟨v, rating, content⟩ ∈ reviews ↔ site.opinion id v = some ⟨rating, content⟩
  | .addVideo ids => ids.Nodup ∧ ∀ c, c ∈ ids ↔ (categories.get c).isSome
  | .root | .register _ _ | .login | .forgotPassword | .confirmPasswordReset | .resetPassword _ | .expiredToken
  | .invite => True

/-! The videos. -/

section
variable {categories : Table Category} {env : Env} {l : Listing} {s : Store} {sessions : Nat → Option Nat}
  {u : Nat} {req : Request}

theorem nodup_sort {α : Type} {key : Nat × α → Int} (o : OrderBy (Nat × α) key) (t : Table α) (p : α → Bool) :
    ((o.sort (t.select p)).map Prod.fst).Nodup :=
  ((o.perm (t.select p)).map Prod.fst).nodup_iff.mpr (Table.select_keys_nodup t p)

theorem mem_category {c v : Nat} :
    v ∈ (Category.videos l s c).map Prod.fst ↔ (siteOf s sessions).Holds c v := by
  simp only [List.mem_map, Prod.exists, Category.videos, mem_sort, Table.mem_select, beq_iff_eq, Site.Holds, siteOf]
  constructor
  · rintro ⟨k, x, ⟨hx, hc⟩, rfl⟩
    exact ⟨x, hx, hc⟩
  · rintro ⟨x, hx, hc⟩
    exact ⟨v, x, ⟨hx, hc⟩, rfl⟩

/-- Rows in the order of their age are videos in that order. -/
theorem newer_of_sorted (sessions : Nat → Option Nat) {rows : List (Nat × Video)}
    (hrows : ∀ r ∈ rows, s.videos.get r.1 = some r.2)
    (h : rows.Pairwise (fun a b => b.2.createdAt ≤ a.2.createdAt)) :
    (rows.map Prod.fst).Pairwise (siteOf s sessions).Newer := by
  rw [List.pairwise_map]
  refine h.imp_of_mem ?_
  intro a b ha hb hab x y hx hy
  obtain rfl : a.2 = x := Option.some.inj ((hrows a ha).symm.trans hx)
  obtain rfl : b.2 = y := Option.some.inj ((hrows b hb).symm.trans hy)
  exact hab

theorem category_sorted (c : Nat) :
    (Category.videos l s c).Pairwise (fun a b => b.2.createdAt ≤ a.2.createdAt) := by
  refine (l.newestFirst.sorted _).imp ?_
  intro a b h
  omega

theorem category_stored {c : Nat} {r : Nat × Video} (h : r ∈ Category.videos l s c) : s.videos.get r.1 = some r.2 :=
  (Table.mem_select.mp ((mem_sort _).mp h)).1

theorem category_all (c : Nat) : (siteOf s sessions).All c ((Category.videos l s c).map Prod.fst) :=
  ⟨nodup_sort _ _ _, newer_of_sorted sessions (fun _ => category_stored) (category_sorted c), fun _ => mem_category⟩

/-- The first of a sorted list: what is left out comes after everything that is not. -/
theorem recent_of_all {site : Site} {c : Nat} {videos : List Nat} (h : site.All c videos) :
    site.Recent c (videos.take 6) := by
  have hsplit := h.sorted
  rw [← List.take_append_drop 6 videos, List.pairwise_append] at hsplit
  obtain ⟨hfirst, -, hcross⟩ := hsplit
  refine ⟨h.nodup.sublist (List.take_sublist _ _), hfirst, fun v hv => (h.holds v).mp (List.mem_of_mem_take hv),
    List.length_take_le _ _, ?_⟩
  intro v hv hnot
  have hmem : v ∈ videos.take 6 ++ videos.drop 6 := by
    rw [List.take_append_drop]
    exact (h.holds v).mpr hv
  have hdrop : v ∈ videos.drop 6 := (List.mem_append.mp hmem).resolve_left hnot
  refine ⟨?_, fun a ha => hcross a ha v hdrop⟩
  have hlen := List.length_pos_of_mem hdrop
  rw [List.length_drop] at hlen
  rw [List.length_take]
  omega

theorem homePage_shows {page : Page} (h : homePage categories l s = .ok page) :
    (siteOf s sessions).Shows categories u req page := by
  obtain ⟨shelves, hs, rfl⟩ := Raising.of_map_ok h
  refine ⟨(l.categories.sort categories.rows).map Prod.fst, ?_, ?_, ?_⟩
  · exact ((l.categories.perm _).map Prod.fst).nodup_iff.mpr categories.keys_nodup
  · intro c
    simp only [List.mem_map, mem_sort, Option.isSome_iff_exists, Table.get_eq_some, Prod.exists, exists_and_right,
      exists_eq_right]
  · rw [List.forall₂_map_left_iff]
    have hstored : ∀ c ∈ l.categories.sort categories.rows, categories.get c.1 = some c.2 :=
      fun c hc => Table.get_eq_some.mpr ((mem_sort _).mp hc)
    refine ((List.forall₂_and_left _ _).mpr ⟨hstored, Raising.forall₂_of_mapM hs⟩).imp ?_
    rintro c x ⟨hc, he⟩
    unfold shelf at he
    split at he
    · cases he
    · next name hname =>
      obtain rfl := Except.ok.inj he
      refine ⟨by rw [hc]; exact hname, ?_⟩
      rw [Category.recentVideos, List.map_take]
      exact recent_of_all (category_all c.1)

theorem categoryPage_shows {name : Param} {page : Page} (h : categoryPage categories env l s name = .ok page) :
    (siteOf s sessions).Shows categories u (.categoriesShow name) page := by
  unfold categoryPage at h
  split at h
  · cases h
  · next id c hf =>
    split at h
    · cases h
    · next name hname =>
      obtain rfl := Except.ok.inj h
      obtain ⟨hid, he⟩ := Table.findBy_some hf
      obtain rfl : c.name = _ := by simpa using he
      exact ⟨by rw [hname], id, c, hid, hname, category_all id⟩

theorem found_nil {site : Site} {searchString : Param} (hb : searchString.blank = true) :
    site.Found searchString [] where
  nodup := List.nodup_nil
  sorted := List.Pairwise.nil
  found := by
    intro v
    refine ⟨fun hv => absurd hv List.not_mem_nil, ?_⟩
    rintro ⟨t, x, title, rfl, ht, -⟩
    rw [Param.blank, ht] at hb
    cases hb

theorem searchPage_shows {searchString : Param} {page : Page} (h : searchPage l s searchString = .ok page) :
    (siteOf s sessions).Shows categories u (.videosSearch searchString) page := by
  obtain ⟨videos, hv, rfl⟩ := Raising.of_map_ok h
  refine ⟨searchString, rfl, ?_⟩
  cases hb : searchString.blank with
  | true =>
    rw [Video.searchByTitle, if_pos hb] at hv
    obtain rfl := Except.ok.inj hv
    exact found_nil hb
  | false =>
    obtain ⟨t, rfl, ht⟩ := some_of_not_blank hb
    obtain ⟨found, hf, hnodup, hmem, hsorted⟩ := searchByTitle_ok (s := s) ht l.oldestFirst
    obtain rfl : found = videos := Except.ok.inj (hf.symm.trans hv)
    refine ⟨?_, ?_, ?_⟩
    · refine List.Nodup.map_on ?_ hnodup
      intro a ha b hb hab
      have hb' := ((hmem b).mp hb).1
      rw [← hab, ((hmem a).mp ha).1] at hb'
      exact Prod.ext hab (Option.some.inj hb')
    · have := newer_of_sorted sessions (fun r hr => ((hmem r).mp (List.mem_reverse.mp hr)).1)
        (List.pairwise_reverse.mpr hsorted)
      rwa [List.map_reverse, List.pairwise_reverse] at this
    · intro v
      simp only [List.mem_map, hmem, Prod.exists]
      constructor
      · rintro ⟨k, x, ⟨hx, title, htitle, hlike⟩, rfl⟩
        exact ⟨t, x, title, rfl, ht, hx, htitle, hlike⟩
      · rintro ⟨t', x, title, he, -, hx, htitle, hlike⟩
        obtain rfl := Option.some.inj he
        exact ⟨v, x, ⟨hx, title, htitle, hlike⟩, rfl⟩

/-! Reviews. -/

/-- A stored review is its author's opinion of the video. -/
theorem opinion_iff (h : ReviewInv s) {x v : Nat} {rating : Option Int} {content : Option String} :
    (siteOf s sessions).opinion x v = some ⟨rating, content⟩ ↔
      ∃ k, s.reviews.get k = some ⟨x, v, rating, content⟩ := by
  simp only [siteOf, Option.map_eq_some_iff, Prod.exists]
  constructor
  · rintro ⟨k, r, hr, ho⟩
    obtain ⟨hk, rfl, rfl⟩ := reviewOf_some hr
    obtain ⟨rfl, rfl⟩ : r.rating = rating ∧ r.content = content := by simpa [Review.opinion] using ho
    exact ⟨k, hk⟩
  · rintro ⟨k, hk⟩
    exact ⟨k, _, h.reviewOf_eq hk, rfl⟩

theorem videoPage_shows (h : ReviewInv s) {id : Nat} {page : Page} (hid : req.asksFor.key = some id)
    (hp : videoPage l s u id = .ok page) :
    (siteOf s sessions).Shows categories u req page := by
  -- the authors are stored, so no row raises
  have hrows : (l.reviews.sort (s.reviews.select (fun r => r.videoId == id))).mapM (fun r => reviewRow s r.2) =
      .ok ((l.reviews.sort (s.reviews.select (fun r => r.videoId == id))).map
        (fun r => (⟨r.2.userId, r.2.rating, r.2.content⟩ : ReviewRow))) := by
    apply Raising.mapM_of_ok
    intro r hr
    obtain ⟨hk, -⟩ := Table.mem_select.mp ((mem_sort _).mp hr)
    obtain ⟨x, hx⟩ := Option.isSome_iff_exists.mp (h.stored r.1 r.2 hk).1
    simp only [reviewRow, hx]
  rw [videoPage, hrows] at hp
  obtain rfl := Except.ok.inj hp
  refine ⟨hid, ?_, ?_, ?_⟩
  · rw [mem_site_queue]
    simp
  · rw [List.map_map]
    refine ((l.reviews.perm _).map _).nodup_iff.mpr (Table.nodup_select_map Review.userId ?_)
    intro j k r r' hj hk hr hr' he
    exact h.once j k r r' hj hk (Prod.ext he ((eq_of_beq hr).trans (eq_of_beq hr').symm))
  · intro x rating content
    rw [opinion_iff h]
    simp only [List.mem_map, mem_sort, Table.mem_select, Prod.exists, ReviewRow.mk.injEq, beq_iff_eq]
    constructor
    · rintro ⟨k, r, ⟨hk, rfl⟩, rfl, rfl, rfl⟩
      exact ⟨k, hk⟩
    · rintro ⟨k, hk⟩
      exact ⟨k, _, ⟨hk, rfl⟩, rfl, rfl, rfl⟩

/-! Lists and people. -/

theorem queuePage_shows (h : QueueInv s) {page : Page} (hp : queuePage env s u = .ok page) :
    (siteOf s sessions).Shows categories u req page := by
  rw [queuePage_eq h env u] at hp
  obtain rfl := Except.ok.inj hp
  refine ⟨?_, ?_, ?_⟩
  · have := congrArg (List.map Prod.snd) (rowsOf_items (s.queueList u) (s.shownRating u))
    rw [List.map_map] at this
    exact this
  · rw [rowsOf_rankings]
    simp [rowsOf]
  · intro row hrow
    rw [(mem_rowsOf hrow).2, Store.shownRating, ← site_opinion_rating s sessions]
    cases (siteOf s sessions).opinion u row.video <;> rfl

theorem queueOf_length (s : Store) (sessions : Nat → Option Nat) (u : Nat) :
    (s.queueOf u).length = ((siteOf s sessions).queue u).length := by
  simp only [siteOf, Store.queueList, List.length_map]
  exact (listing_perm s u).length_eq.symm

/-- The followers of a user, each once. -/
theorem followers_list (sessions : Nat → Option Nat) (h : FollowGraph s) (k : Nat) :
    ∃ l : List Nat, l.Nodup ∧ (∀ x, x ∈ l ↔ (siteOf s sessions).follows x k) ∧
      l.length = (s.relationships.select (fun r => r.leaderId == some k)).length := by
  refine ⟨(s.relationships.select (fun r => r.leaderId == some k)).map (fun r => r.2.followerId.getD 0), ?_, ?_,
    List.length_map _⟩
  · apply Table.nodup_select_map (fun r : Relationship => r.followerId.getD 0)
    intro i j r r' hi hj hl hl' he
    obtain ⟨x, -, hx, -⟩ := h.ends i r hi
    obtain ⟨x', -, hx', -⟩ := h.ends j r' hj
    have hfollower : r.followerId = r'.followerId := by
      rw [hx, hx'] at he ⊢
      exact congrArg some he
    exact h.once i j r r' hi hj (Prod.ext hfollower ((eq_of_beq hl).trans (eq_of_beq hl').symm))
  · intro x
    show _ ↔ follows s x k = true
    rw [follows_iff]
    simp only [List.mem_map, Table.mem_select, Prod.exists, beq_iff_eq]
    constructor
    · rintro ⟨j, r, ⟨hj, hl⟩, rfl⟩
      obtain ⟨x, -, hx, -⟩ := h.ends j r hj
      exact ⟨j, r, hj, by rw [hx]; rfl, hl⟩
    · rintro ⟨j, r, hj, hx, hl⟩
      exact ⟨j, r, ⟨hj, hl⟩, by rw [hx]; rfl⟩

/-- A row of the people page is about the leader of its relationship. -/
theorem personRow_spec {r : Nat × Relationship} {row : PersonRow} (h : personRow s r = .ok row) :
    r.2.leaderId = some row.leader ∧ row.queued = (s.queueOf row.leader).length ∧
      row.followers = (s.relationships.select (fun r => r.leaderId == some row.leader)).length := by
  unfold personRow at h
  split at h
  · cases h
  · next k leader hl =>
    split at h
    · cases h
    · obtain rfl := Except.ok.inj h
      refine ⟨?_, rfl, rfl⟩
      simp only [Relationship.leader, Option.bind_eq_some_iff, Option.map_eq_some_iff, Prod.mk.injEq] at hl
      obtain ⟨j, hj, x, -, rfl, -⟩ := hl
      exact hj

theorem peoplePage_shows (h : FollowGraph s) {page : Page} (hp : peoplePage l s u = .ok page) :
    (siteOf s sessions).Shows categories u req page := by
  obtain ⟨rows, hrows, rfl⟩ := Raising.of_map_ok hp
  have hleaders : rows.map (fun row => some row.leader) =
      (l.relationships.sort (s.relationships.select (fun r => r.followerId == some u))).map (fun r => r.2.leaderId) :=
    Raising.map_of_mapM hrows (fun r row he => (personRow_spec he).1.symm)
  refine ⟨?_, ?_, ?_⟩
  · have hnd : (rows.map (fun row => some row.leader)).Nodup := by
      rw [hleaders]
      refine ((l.relationships.perm _).map _).nodup_iff.mpr (Table.nodup_select_map Relationship.leaderId ?_)
      intro j k r r' hj hk hu hu' he
      exact h.once j k r r' hj hk (Prod.ext ((eq_of_beq hu).trans (eq_of_beq hu').symm) he)
    exact List.Nodup.of_map some (by rw [List.map_map]; exact hnd)
  · intro x
    have hmem : x ∈ rows.map PersonRow.leader ↔ some x ∈ rows.map (fun row => some row.leader) := by simp
    rw [hmem, hleaders]
    show _ ↔ follows s u x = true
    rw [follows_iff]
    simp only [List.mem_map, mem_sort, Table.mem_select, Prod.exists, beq_iff_eq]
    constructor
    · rintro ⟨k, r, ⟨hk, hu⟩, hl⟩
      exact ⟨k, r, hk, hu, hl⟩
    · rintro ⟨k, r, hk, hu, hl⟩
      exact ⟨k, r, ⟨hk, hu⟩, hl⟩
  · intro row hrow
    obtain ⟨r, -, he⟩ := Raising.mem_of_mapM hrows hrow
    obtain ⟨-, hqueued, hfollowers⟩ := personRow_spec he
    obtain ⟨followers, hnd, hmem, hlen⟩ := followers_list sessions h row.leader
    exact ⟨by rw [hqueued, queueOf_length s sessions], followers, hnd, hmem, by rw [hlen, hfollowers]⟩

/-! Profiles. -/

theorem collectionRow_holds (sessions : Nat → Option Nat) {q : QueueItem} {row : CollectionRow}
    (h : collectionRow categories s q = .ok row) :
    row.video = q.videoId ∧ ∃ c, (siteOf s sessions).Holds c row.video ∧
      (categories.get c).bind Category.name = some row.category := by
  unfold collectionRow at h
  split at h
  · cases h
  · next v hv =>
    split at h
    · cases h
    · next name hname =>
      obtain rfl := Except.ok.inj h
      refine ⟨rfl, ?_⟩
      obtain ⟨c, hc, hn⟩ := Option.bind_eq_some_iff.mp hname
      simp only [Video.category, Option.bind_eq_some_iff] at hc
      obtain ⟨n, hcat, hget⟩ := hc
      split at hget
      · next hnonneg =>
        refine ⟨n.toNat, ⟨v, hv, ?_⟩, by rw [hget]; exact hn⟩
        rw [hcat, Int.toNat_of_nonneg hnonneg]
      · cases hget

theorem authoredRow_spec {r : Review} {row : AuthoredRow} (h : authoredRow s r = .ok row) :
    row = ⟨r.videoId, r.rating, r.content⟩ := by
  unfold authoredRow at h
  split at h
  · cases h
  · exact (Except.ok.inj h).symm

theorem profilePage_shows (hq : QueueInv s) (h : ReviewInv s) {id : Nat} {user : User} {page : Page}
    (hid : req.asksFor.key = some id) (hp : profilePage categories env l s u id user = .ok page) :
    (siteOf s sessions).Shows categories u req page := by
  unfold profilePage at hp
  split at hp
  · cases hp
  · split at hp
    · cases hp
    · next collection hc =>
      obtain ⟨authored, ha, rfl⟩ := Raising.of_map_ok hp
      have hauthored : authored = (l.reviews.sort (s.reviews.select (fun r => r.userId == id))).map
          (fun r => (⟨r.2.videoId, r.2.rating, r.2.content⟩ : AuthoredRow)) := by
        have := Raising.map_of_mapM (g := fun row : AuthoredRow => row) ha (fun r row he => authoredRow_spec he)
        rwa [List.map_id'] at this
      refine ⟨hid, ?_, ?_, ?_, ?_, ?_⟩
      · simp [canFollow, siteOf, and_comm]
      · have hvideos := Raising.map_of_mapM (g := CollectionRow.video) hc
          (fun r row he => (collectionRow_holds sessions he).1)
        rw [hvideos, sort_eq_listing (hq.numbered id)]
        simp [siteOf, Store.queueList, strip]
      · intro row hrow
        obtain ⟨r, -, he⟩ := Raising.mem_of_mapM hc hrow
        exact (collectionRow_holds sessions he).2
      · rw [hauthored, List.map_map]
        refine ((l.reviews.perm _).map _).nodup_iff.mpr (Table.nodup_select_map Review.videoId ?_)
        intro j k r r' hj hk hr hr' he
        exact h.once j k r r' hj hk (Prod.ext ((eq_of_beq hr).trans (eq_of_beq hr').symm) he)
      · intro v rating content
        rw [opinion_iff h, hauthored]
        simp only [List.mem_map, mem_sort, Table.mem_select, Prod.exists, AuthoredRow.mk.injEq, beq_iff_eq]
        constructor
        · rintro ⟨k, r, ⟨hk, rfl⟩, rfl, rfl, rfl⟩
          exact ⟨k, hk⟩
        · rintro ⟨k, hk⟩
          exact ⟨k, _, ⟨hk, rfl⟩, rfl, rfl, rfl⟩

/-! Answers. -/

theorem addVideoPage_shows : (siteOf s sessions).Shows categories u req (addVideoPage categories l) := by
  refine ⟨((l.categories.perm _).map Prod.fst).nodup_iff.mpr categories.keys_nodup, ?_⟩
  intro c
  simp only [List.mem_map, mem_sort, Option.isSome_iff_exists, Table.get_eq_some, Prod.exists, exists_and_right,
    exists_eq_right]

theorem pageOf_shows (hq : QueueInv s) (hr : ReviewInv s) (hg : FollowGraph s) {view : View} {page : Page}
    (hv : view.Faithful s req) (h : pageOf categories env l s (some u) req view = .ok page) :
    (siteOf s sessions).Shows categories u req page := by
  cases view with
  | usersNew _ _ | passwordResetsShow _ | invitationsNew | sessionsNew =>
    obtain rfl := Except.ok.inj h
    trivial
  | adminVideosNew =>
    obtain rfl := Except.ok.inj h
    exact addVideoPage_shows
  | videosShow id => exact videoPage_shows hr hv.1 h
  | usersShow id =>
    simp only [pageOf] at h
    split at h
    · cases h
    · exact profilePage_shows hq hr hv.1 (forUser_ok h)
  | other =>
    cases req with
    | videosIndex => exact homePage_shows h
    | videosSearch p => exact searchPage_shows h
    | categoriesShow p => exact categoryPage_shows h
    | queueItemsIndex => exact queuePage_shows hq (forUser_ok h)
    | relationshipsIndex => exact peoplePage_shows hg (forUser_ok h)
    | forgotPasswordsNew | forgotPasswordsConfirm | passwordResetsExpiredToken
    | root | ui | videosShow _ | reviewsCreate _ _ | adminVideosNew | adminVideosCreate _ | queueItemsCreate _
    | queueItemsUpdateQueue _ | queueItemsDestroy _ | usersNew _ | usersCreate _ _ _ | usersShow _
    | relationshipsCreate _ | relationshipsDestroy _ | sessionsNew | sessionsCreate _ _ | sessionsDestroy
    | forgotPasswordsCreate _ | passwordResetsShow _ | passwordResetsCreate _ _ | invitationsNew
    | invitationsCreate _ =>
      obtain rfl := Except.ok.inj h
      trivial

end

/-- **The pages show the site.** In every state reached from one with the invariants, whatever order
    the database gives to what the source does not sort: a page that is rendered to a user who is
    logged in shows the site to that user as it is. -/
theorem pages_show_site (rand : Nat → String) (categories : Table Category) (w₀ : World) (h₀ : AppInv w₀)
    (es : List Event) (e : Event) (l : Listing) (u : Nat) (screen : Screen)
    (hu : (run (World.step rand) w₀ es).sessions e.sid = some u)
    (h : answer rand categories e.env l (run (World.step rand) w₀ es).store
      ((run (World.step rand) w₀ es).sessions e.sid) e.request = .ok (some screen)) :
    (run (World.step rand) w₀ es).site.Shows categories u e.request screen.page := by
  have hw : AppInv (run (World.step rand) w₀ es) := h₀.run es
  obtain ⟨-, -, -, view, hv, hp⟩ := answer_screen h
  rw [hu] at hp
  exact pageOf_shows hw.queues hw.reviews hw.graph hv hp

/-- Alice looks at her own page: the one video she has queued, and no button to follow her. -/
theorem pages_show_site_small :
    (run (World.step tally) World.stocked collecting).site.Shows genres 1 (.usersShow (some "1"))
      (.profile 1 false [⟨1, "comedies"⟩] []) :=
  pages_show_site tally genres World.stocked appInv_stocked collecting (Event.fair 1 (.usersShow (some "1")))
    .stable 1
    ⟨.profile 1 false [⟨1, "comedies"⟩] [], [.videosIndex, .queueItemsIndex, .relationshipsIndex, .sessionsDestroy]⟩
    (by decide) (by decide)

end Myflix
