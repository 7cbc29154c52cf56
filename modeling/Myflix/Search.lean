import Myflix.App

/- Searching videos by title. `Video.search_by_title` splices the search string into a
   LIKE pattern, so `%`, `_` and a backslash in it are not searched for but read as
   part of the pattern. The search finds the titles that contain the string exactly
   when the string has none of these characters, or when it is too long for any title
   (`search_finds_substrings_iff`); a single `%` finds every video
   (`search_finds_others`). -/
namespace Myflix
open Relational Rails

/-- The title contains the string. -/
def Contains (v : Video) (t : String) : Prop := ∃ title, v.title = some title ∧ t.toList <:+: title.toList

/-- The search returned the videos whose title contains the string, each once, the oldest first. -/
def FindsSubstrings (s : Store) (t : String) (result : Except Exception (List (Nat × Video))) : Prop :=
  ∃ l, result = .ok l ∧ l.Nodup ∧ (∀ r, r ∈ l ↔ s.videos.get r.1 = some r.2 ∧ Contains r.2 t) ∧
    l.Pairwise (fun a b => a.2.createdAt ≤ b.2.createdAt)

/-- The title matches the pattern the search makes of the string. -/
def TitleLike (t title : String) : Prop :=
  ∃ pattern, Like.tokens ('%' :: t.toList ++ ['%']) = some pattern ∧ Like.accepts pattern title.toList = true

/-- Every title fits its column, as PostgreSQL sees to. -/
def TitlesStorable (s : Store) : Prop := ∀ k v, s.videos.get k = some v → holdsString v.title = true

section
variable {s : Store} {t : String}

/-- The pattern starts with `%`, so it is the rest of it that has to be read. -/
theorem tokens_pattern {p : List Like.Token} (hp : Like.tokens (t.toList ++ ['%']) = some p) :
    Like.tokens ('%' :: t.toList ++ ['%']) = some (.many :: p) := by
  rw [List.cons_append, Like.tokens_cons (by decide), hp]
  rfl

theorem titleLike_iff {p : List Like.Token} (hp : Like.tokens (t.toList ++ ['%']) = some p) (title : String) :
    TitleLike t title ↔ Like.accepts (.many :: p) title.toList = true := by
  simp only [TitleLike, tokens_pattern hp, Option.some.injEq]
  exact ⟨fun ⟨_, he, h⟩ => he ▸ h, fun h => ⟨_, rfl, h⟩⟩

/-- What the search returns: it never raises, as the `%` after the string is never left out. -/
theorem searchByTitle_ok (ht : Rails.blank t = false)
    (byCreatedAt : OrderBy (Nat × Video) (fun r => (r.2.createdAt : Int))) :
    ∃ l, Video.searchByTitle byCreatedAt s (some t) = .ok l ∧ l.Nodup ∧
      (∀ r, r ∈ l ↔ s.videos.get r.1 = some r.2 ∧ ∃ title, r.2.title = some title ∧ TitleLike t title) ∧
      l.Pairwise (fun a b => a.2.createdAt ≤ b.2.createdAt) := by
  obtain ⟨p, hp, -⟩ := Like.tokens_closed t.toList
  have hsearch : Video.searchByTitle byCreatedAt s (some t) = .ok (byCreatedAt.sort
      (s.videos.select (fun v => v.title.any (fun x => Like.accepts (.many :: p) x.toList)))) := by
    simp only [Video.searchByTitle, Param.blank, ht, Option.getD_some, tokens_pattern hp]
    rfl
  have hperm := byCreatedAt.perm
    (s.videos.select (fun v => v.title.any (fun x => Like.accepts (.many :: p) x.toList)))
  refine ⟨_, hsearch, ?_, ?_, ?_⟩
  · exact hperm.nodup_iff.mpr (List.Nodup.of_map Prod.fst (s.videos.select_keys_nodup _))
  · intro r
    rw [hperm.mem_iff, Table.mem_select]
    simp only [Option.any_eq_true, titleLike_iff hp]
  · refine (byCreatedAt.sorted _).imp ?_
    intro a b hab
    exact Int.ofNat_le.mp hab

/-- The search is right about a set of videos when it is right about each title. -/
theorem findsSubstrings_iff (ht : Rails.blank t = false)
    (byCreatedAt : OrderBy (Nat × Video) (fun r => (r.2.createdAt : Int))) :
    FindsSubstrings s t (Video.searchByTitle byCreatedAt s (some t)) ↔
      ∀ k v title, s.videos.get k = some v → v.title = some title →
        (TitleLike t title ↔ t.toList <:+: title.toList) := by
  obtain ⟨l, hl, hnodup, hmem, hsorted⟩ := searchByTitle_ok (s := s) ht byCreatedAt
  have hone : ∀ k v title, s.videos.get k = some v → v.title = some title →
      ((k, v) ∈ l ↔ TitleLike t title) ∧ (Contains v t ↔ t.toList <:+: title.toList) := by
    intro k v title hk hv
    rw [hmem]
    simp only [hk, hv, Contains, Option.some.injEq, true_and]
    exact ⟨⟨fun ⟨_, he, h⟩ => he ▸ h, fun h => ⟨_, rfl, h⟩⟩, ⟨fun ⟨_, he, h⟩ => he ▸ h, fun h => ⟨_, rfl, h⟩⟩⟩
  refine ⟨?_, ?_⟩
  · intro h k v title hk hv
    obtain ⟨l', hl', -, hm, -⟩ := h
    obtain rfl := Except.ok.inj (hl.symm.trans hl')
    obtain ⟨h1, h2⟩ := hone k v title hk hv
    rw [← h1, ← h2, hm]
    simp only [hk, true_and]
  · intro h
    refine ⟨l, hl, hnodup, ?_, hsorted⟩
    intro r
    rw [hmem]
    refine and_congr_right ?_
    intro hk
    refine exists_congr ?_
    intro title
    refine and_congr_right ?_
    intro hv
    exact h r.1 r.2 title hk hv

/-- A string of characters that stand for themselves is searched for as it is. -/
theorem titleLike_plain (h : ∀ c ∈ t.toList, Like.Plain c) (title : String) :
    TitleLike t title ↔ t.toList <:+: title.toList := by
  have hp : Like.tokens (t.toList ++ ['%']) = some (t.toList.map .lit ++ [.many]) := by
    rw [Like.tokens_append_plain h]
    rfl
  rw [titleLike_iff hp, Like.accepts_contains]

/-- A title that is found has as many characters as the string asks for. -/
theorem titleLike_length {title : String} (h : TitleLike t title) : Like.width t.toList ≤ title.toList.length := by
  obtain ⟨p, hp, hlen, -⟩ := Like.tokens_closed t.toList
  have hle : (Like.least (.many :: p)).length ≤ title.toList.length :=
    Like.least_length_le ((titleLike_iff hp title).mp h)
  rw [← hlen]
  exact hle

/-- A title that is found and has just as many; it contains the string only if all the characters
    of the string stand for themselves. -/
theorem titleLike_sample (t : String) :
    ∃ title, TitleLike t title ∧ title.toList.length = Like.width t.toList ∧
      (t.toList <:+: title.toList → ∀ c ∈ t.toList, Like.Plain c) := by
  obtain ⟨p, hp, hlen, hplain⟩ := Like.tokens_closed t.toList
  refine ⟨String.ofList (Like.least p), ?_, ?_, ?_⟩
  · rw [titleLike_iff hp, String.toList_ofList]
    exact Like.accepts_least (.many :: p)
  · rw [String.toList_ofList]
    exact hlen
  · rw [String.toList_ofList]
    intro hin
    have hle : (Like.least p).length ≤ t.toList.length := hlen ▸ Like.width_le t.toList
    exact hplain (hin.eq_of_length (Nat.le_antisymm hin.length_le hle)).symm

end

/-- A library with one video. -/
def Store.only (title : String) : Store :=
  { Store.empty with videos := Table.empty.insert ⟨none, some title, some "A film.", none, 0⟩ }

theorem only_storable {title : String} (h : holdsString (some title) = true) : TitlesStorable (Store.only title) := by
  intro k v hk
  rcases Table.get_insert_cases hk with ⟨rfl, -⟩ | hk
  · exact h
  · exact absurd hk (Table.not_get_of_no_rows rfl)

/-- **When the search finds the titles that contain the string.** For a search string that is
    not blank: over every set of videos the database can hold the search returns exactly the
    videos whose title contains the string, each once and the oldest first, if and only if the
    string has no `%`, `_` or backslash, or asks for more than 255 characters, which no title has. -/
theorem search_finds_substrings_iff (t : String) (ht : Rails.blank t = false) :
    (∀ byCreatedAt s, TitlesStorable s → FindsSubstrings s t (Video.searchByTitle byCreatedAt s (some t))) ↔
      (∀ c ∈ t.toList, Like.Plain c) ∨ 255 < Like.width t.toList := by
  refine ⟨?_, ?_⟩
  · intro h
    obtain ⟨x, hx, hlen, hplain⟩ := titleLike_sample t
    by_cases hlong : 255 < Like.width t.toList
    · exact .inr hlong
    · -- the sample fits its column, so the search is right about the library that has only it
      have hholds : holdsString (some x) = true := by
        simp only [holdsString, decide_eq_true_eq]
        omega
      have hone := (findsSubstrings_iff ht (.stable _)).mp (h _ _ (only_storable hholds)) 1 _ x rfl rfl
      exact .inl (hplain (hone.mp hx))
  · intro h byCreatedAt s hs
    rw [findsSubstrings_iff ht]
    intro k v title hk hv
    rcases h with h | h
    · exact titleLike_plain h title
    · have hholds : holdsString (some title) = true := hv ▸ hs k v hk
      simp only [holdsString, decide_eq_true_eq] at hholds
      refine ⟨?_, ?_⟩
      · intro hlike
        have := titleLike_length hlike
        omega
      · intro hin
        have := hin.length_le
        have := Like.width_le t.toList
        omega

/-- Part of a title, over the small installation. -/
theorem search_finds_substrings_iff_small :
    FindsSubstrings Store.small "onk" (Video.searchByTitle (.stable _) Store.small (some "onk")) ∧
    Video.searchByTitle (.stable _) Store.small (some "onk") =
      .ok [(1, ⟨none, some "Monk", some "A detective.", none, 0⟩)] := by
  refine ⟨?_, rfl⟩
  have hplain : ∀ c ∈ "onk".toList, Like.Plain c := by simp [Like.Plain]
  refine (search_finds_substrings_iff "onk" (by decide)).mpr (.inl hplain) (.stable _) Store.small ?_
  exact (Table.forall_rows (P := fun _ (v : Video) => holdsString v.title = true)).mp (by decide)

/-- A percent sign finds every video, though no title contains one. -/
theorem search_finds_others :
    Rails.blank "%" = false ∧ TitlesStorable Store.small ∧
      Video.searchByTitle (.stable _) Store.small (some "%") = .ok Store.small.videos.rows ∧
      ¬ FindsSubstrings Store.small "%" (Video.searchByTitle (.stable _) Store.small (some "%")) := by
  have hall : Video.searchByTitle (.stable _) Store.small (some "%") = .ok Store.small.videos.rows := rfl
  refine ⟨by decide, ?_, hall, ?_⟩
  · exact (Table.forall_rows (P := fun _ (v : Video) => holdsString v.title = true)).mp (by decide)
  · intro h
    obtain ⟨l, hl, -, hm, -⟩ := h
    obtain rfl := Except.ok.inj (hall.symm.trans hl)
    obtain ⟨-, title, ht, hin⟩ :=
      (hm (1, ⟨none, some "Monk", some "A detective.", none, 0⟩)).mp (by decide)
    obtain rfl := Option.some.inj ht
    exact absurd hin (by decide)

end Myflix
