import Mathlib.Data.List.Infix

/- The pattern language of SQL's LIKE, as PostgreSQL reads it: `%` stands for any
   sequence of characters, `_` for any one character, and a backslash makes the next
   character of the pattern literal. A pattern is first read into tokens, which are
   then matched against a text by recursion over the tokens.

   `accepts_literal` says what a literal piece of a pattern matches; `least` is a text
   each pattern accepts, with nothing for `%`, and no text it accepts is shorter
   (`least_length_le`). -/
namespace Like

inductive Token where
  | lit (c : Char)
  | one
  | many
  deriving DecidableEq, Repr

/-- What a character of a pattern stands for when no backslash is before it. -/
def token (c : Char) : Token := if c = '%' then .many else if c = '_' then .one else .lit c

/-- The tokens of a pattern; PostgreSQL refuses one that ends in an escaping backslash. -/
def tokens : List Char → Option (List Token)
  | [] => some []
  | c :: cs =>
    if c = '\\' then
      match cs with
      | [] => none
      | d :: cs => (tokens cs).map (fun p => .lit d :: p)
    else (tokens cs).map (fun p => token c :: p)

/-- The text matches the pattern, from the first character to the last. -/
def accepts : List Token → List Char → Bool
  | [], t => t.isEmpty
  | .lit c :: p, t =>
    match t with
    | [] => false
    | d :: t => c == d && accepts p t
  | .one :: p, t =>
    match t with
    | [] => false
    | _ :: t => accepts p t
  | .many :: p, t => t.tails.any (accepts p)

/-! Tokens. -/

/-- A character that stands for itself. -/
def Plain (c : Char) : Prop := c ≠ '%' ∧ c ≠ '_' ∧ c ≠ '\\'

instance (c : Char) : Decidable (Plain c) := inferInstanceAs (Decidable (_ ∧ _ ∧ _))

theorem token_plain {c : Char} (h : Plain c) : token c = .lit c := by
  simp [token, h.1, h.2.1]

theorem tokens_cons {c : Char} (h : c ≠ '\\') (cs : List Char) :
    tokens (c :: cs) = (tokens cs).map (fun p => token c :: p) := by
  cases cs <;> simp [tokens, h]

theorem tokens_escape (d : Char) (cs : List Char) :
    tokens ('\\' :: d :: cs) = (tokens cs).map (fun p => .lit d :: p) := by
  simp [tokens]

theorem tokens_append_plain {cs : List Char} (h : ∀ c ∈ cs, Plain c) (rest : List Char) :
    tokens (cs ++ rest) = (tokens rest).map (fun p => cs.map .lit ++ p) := by
  induction cs with
  | nil => simp
  | cons c cs ih =>
    have hc := h c List.mem_cons_self
    rw [List.cons_append, tokens_cons hc.2.2, ih (fun d hd => h d (List.mem_cons_of_mem c hd)), Option.map_map,
      token_plain hc]
    rfl

/-! Matching. -/

theorem accepts_many {p : List Token} {t : List Char} :
    accepts (.many :: p) t = true ↔ ∃ a b, t = a ++ b ∧ accepts p b = true := by
  simp only [accepts, List.any_eq_true, List.mem_tails]
  refine ⟨?_, ?_⟩
  · intro h
    obtain ⟨b, ⟨a, hab⟩, hb⟩ := h
    exact ⟨a, b, hab.symm, hb⟩
  · intro h
    obtain ⟨a, b, rfl, hb⟩ := h
    exact ⟨b, ⟨a, rfl⟩, hb⟩

theorem accepts_literal {cs : List Char} {p : List Token} {t : List Char} :
    accepts (cs.map .lit ++ p) t = true ↔ ∃ b, t = cs ++ b ∧ accepts p b = true := by
  induction cs generalizing t with
  | nil => simp
  | cons c cs ih =>
    cases t with
    | nil => simp [accepts]
    | cons d t =>
      simp only [List.map_cons, List.cons_append, accepts, Bool.and_eq_true, beq_iff_eq, ih, List.cons.injEq]
      refine ⟨?_, ?_⟩
      · intro h
        obtain ⟨rfl, b, rfl, hb⟩ := h
        exact ⟨b, ⟨rfl, rfl⟩, hb⟩
      · intro h
        obtain ⟨b, ⟨rfl, rfl⟩, hb⟩ := h
        exact ⟨rfl, b, rfl, hb⟩

/-- A literal between two `%` is found anywhere in the text. -/
theorem accepts_contains {cs t : List Char} :
    accepts (.many :: (cs.map .lit ++ [.many])) t = true ↔ cs <:+: t := by
  rw [accepts_many]
  refine ⟨?_, ?_⟩
  · intro h
    obtain ⟨a, b, rfl, hb⟩ := h
    obtain ⟨b', rfl, -⟩ := accepts_literal.mp hb
    exact ⟨a, b', by simp⟩
  · intro h
    obtain ⟨a, b, rfl⟩ := h
    refine ⟨a, cs ++ b, by simp, accepts_literal.mpr ⟨b, rfl, ?_⟩⟩
    exact accepts_many.mpr ⟨b, [], by simp, rfl⟩

/-! A text for every pattern. -/

/-- A text the pattern accepts: nothing for `%`, and a letter for `_`. -/
def least : List Token → List Char
  | [] => []
  | .lit c :: p => c :: least p
  | .one :: p => 'a' :: least p
  | .many :: p => least p

theorem accepts_least (p : List Token) : accepts p (least p) = true := by
  induction p with
  | nil => rfl
  | cons x p ih =>
    cases x with
    | lit c => simp [least, accepts, ih]
    | one => simp [least, accepts, ih]
    | many => exact accepts_many.mpr ⟨[], least p, rfl, ih⟩

theorem least_length_le {p : List Token} {t : List Char} (h : accepts p t = true) : (least p).length ≤ t.length := by
  induction p generalizing t with
  | nil => exact Nat.zero_le _
  | cons x p ih =>
    cases x with
    | lit c =>
      cases t with
      | nil => cases h
      | cons d t =>
        simp only [accepts, Bool.and_eq_true] at h
        exact Nat.succ_le_succ (ih h.2)
    | one =>
      cases t with
      | nil => cases h
      | cons d t => exact Nat.succ_le_succ (ih h)
    | many =>
      obtain ⟨a, b, rfl, hb⟩ := accepts_many.mp h
      have := ih hb
      simp only [least, List.length_append]
      omega

/-- How many characters a piece of a pattern asks for: none for `%`, and one for every other
    character, an escaped one counted together with its backslash. -/
def width : List Char → Nat
  | [] => 0
  | c :: cs =>
    if c = '\\' then
      match cs with
      | [] => 1
      | _ :: cs => width cs + 1
    else if c = '%' then width cs else width cs + 1

theorem width_le (cs : List Char) : width cs ≤ cs.length := by
  fun_induction width cs with
  | case1 => exact Nat.le_refl 0
  | case2 => exact Nat.le_refl 1
  | case3 d cs ih =>
    simp only [List.length_cons]
    omega
  | case4 cs _ ih => exact Nat.le_succ_of_le ih
  | case5 c cs _ _ ih => exact Nat.succ_le_succ ih

/-- A piece of a pattern with a `%` after it can always be read, and the text for it has as many
    characters as it asks for; it is the piece itself only if every character stands for itself. -/
theorem tokens_closed (cs : List Char) :
    ∃ p, tokens (cs ++ ['%']) = some p ∧ (least p).length = width cs ∧ (least p = cs → ∀ c ∈ cs, Plain c) := by
  -- by recursion over the piece as `width` reads it, an escaped character at a time
  fun_induction width cs with
  | case1 => exact ⟨[.many], rfl, rfl, nofun⟩
  | case2 => exact ⟨[.lit '%'], rfl, rfl, by decide⟩
  | case3 d cs ih =>
    obtain ⟨p, hp, hlen, -⟩ := ih
    refine ⟨.lit d :: p, by rw [List.cons_append, List.cons_append, tokens_escape, hp]; rfl, ?_, ?_⟩
    · simp only [least, List.length_cons, hlen]
    · intro he
      have hle := width_le cs
      have := congrArg List.length he
      simp only [least, List.length_cons, hlen] at this
      omega
  | case4 cs hc ih =>
    obtain ⟨p, hp, hlen, -⟩ := ih
    refine ⟨.many :: p, by rw [List.cons_append, tokens_cons hc, hp]; rfl, hlen, ?_⟩
    intro he
    have hle := width_le cs
    have := congrArg List.length he
    simp only [least, List.length_cons, hlen] at this
    omega
  | case5 c cs hc hmany ih =>
    obtain ⟨p, hp, hlen, hplain⟩ := ih
    refine ⟨token c :: p, by rw [List.cons_append, tokens_cons hc, hp]; rfl, ?_⟩
    by_cases hone : c = '_'
    · subst hone
      refine ⟨congrArg (· + 1) hlen, ?_⟩
      intro he
      exact absurd (List.cons.inj he).1 (by decide)
    · have hc : Plain c := ⟨hmany, hone, hc⟩
      rw [token_plain hc]
      refine ⟨congrArg (· + 1) hlen, ?_⟩
      intro he d hd
      rcases List.mem_cons.mp hd with rfl | hd
      · exact hc
      · exact hplain (List.cons.inj he).2 d hd

end Like
