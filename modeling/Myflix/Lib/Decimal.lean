import Myflix.Lib.Rails

/- Numbers in pages. A page prints an id or a ranking in decimal (`Integer#to_s`),
   and the request that comes back carries the string: `to_i`, the integer pattern
   and the cast of a key read the same number again. -/
namespace Rails

/-! Digits. -/

theorem digits_of_isDigit {cs : List Char} (h : ∀ c ∈ cs, c.isDigit = true) (n : Nat) :
    digits n cs = Nat.ofDigitChars 10 cs n := by
  induction cs generalizing n with
  | nil => rfl
  | cons c cs ih =>
    have hc : c.isDigit = true := h c List.mem_cons_self
    rw [Nat.ofDigitChars_cons, digits.eq_def]
    simp only [hc, if_true]
    exact ih (fun d hd => h d (List.mem_cons_of_mem c hd)) _

theorem isDigit_toDigits {n : Nat} {c : Char} (h : c ∈ Nat.toDigits 10 n) : c.isDigit = true :=
  Nat.isDigit_of_mem_toDigits (by omega) (by omega) h

/-- Digits are not taken for the `0d` of a decimal number. -/
theorem magnitude_of_isDigit {cs : List Char} (h : ∀ c ∈ cs, c.isDigit = true) :
    magnitude cs = Nat.ofDigitChars 10 cs 0 := by
  unfold magnitude
  split
  · next ds => exact absurd (h 'd' (by simp)) (by decide)
  · next ds => exact absurd (h 'D' (by simp)) (by decide)
  · cases cs with
    | nil => rfl
    | cons c cs =>
      simp only [h c List.mem_cons_self, if_true]
      exact digits_of_isDigit h 0

theorem magnitude_toDigits (n : Nat) : magnitude (Nat.toDigits 10 n) = n := by
  rw [magnitude_of_isDigit (fun _ hc => isDigit_toDigits hc)]
  exact Nat.ofDigitChars_ten_toDigits

/-! Strings. -/

theorem toString_toList (n : Int) :
    (toString n).toList =
      if 0 ≤ n then Nat.toDigits 10 n.toNat else '-' :: Nat.toDigits 10 (-n).toNat := by
  rw [Int.toString_eq_repr, Int.repr_eq_if]
  split
  · exact Nat.toList_repr
  · rw [String.toList_append, Nat.toList_repr]
    rfl

/-- A digit is neither white space nor a sign. -/
theorem isDigit_bounds {c : Char} (h : c.isDigit = true) : 48 ≤ c.toNat ∧ c.toNat ≤ 57 := by
  simpa [Char.isDigit, UInt32.le_iff_toNat_le] using h

/-- A number does not start with white space. -/
theorem dropSpace_of_isDigit {cs : List Char} (h : ∀ c ∈ cs, c.isDigit = true) :
    cs.dropWhile (fun c => c == ' ' || (9 ≤ c.toNat && c.toNat ≤ 13)) = cs := by
  cases cs with
  | nil => rfl
  | cons c cs =>
    obtain ⟨h1, h2⟩ := isDigit_bounds (h c List.mem_cons_self)
    have hc : (c == ' ' || (9 ≤ c.toNat && c.toNat ≤ 13)) = false := by
      have hne : c ≠ ' ' := by
        rintro rfl
        exact absurd h1 (by decide)
      simp only [Bool.or_eq_false_iff, beq_eq_false_iff_ne, Bool.and_eq_false_iff, decide_eq_false_iff_not]
      exact ⟨hne, .inr (by omega)⟩
    rw [List.dropWhile_cons, hc]
    rfl

/-- `to_i` undoes `to_s`. -/
theorem toI_toString (n : Int) : toI (toString n) = n := by
  unfold toI
  rw [toString_toList]
  split_ifs with hn
  · rw [dropSpace_of_isDigit (fun _ hc => isDigit_toDigits hc)]
    have hd : ∀ c ∈ Nat.toDigits 10 n.toNat, c.isDigit = true := fun _ hc => isDigit_toDigits hc
    have hm := magnitude_toDigits n.toNat
    split
    · next cs he => exact absurd (hd '-' (by simp [he])) (by decide)
    · next cs he => exact absurd (hd '+' (by simp [he])) (by decide)
    · rw [hm]
      omega
  · have hdrop : ('-' :: Nat.toDigits 10 (-n).toNat).dropWhile
        (fun c => c == ' ' || (9 ≤ c.toNat && c.toNat ≤ 13)) = '-' :: Nat.toDigits 10 (-n).toNat := by
      rw [List.dropWhile_cons]
      rfl
    rw [hdrop]
    simp only [magnitude_toDigits]
    omega

/-- Digits are an integer, and do not end in a line break. -/
theorem isInteger_toString (n : Int) : isInteger (toString n) = true := by
  have hd : ∀ m : Nat, ∀ c ∈ Nat.toDigits 10 m, c.isDigit = true := fun _ _ hc => isDigit_toDigits hc
  have hlast : ∀ m : Nat, ((Nat.toDigits 10 m).getLast? == some '\n') = false := by
    intro m
    rw [beq_eq_false_iff_ne]
    intro hl
    exact absurd (hd m _ (List.mem_of_getLast? hl)) (by decide)
  have hall : ∀ m : Nat, (Nat.toDigits 10 m).all Char.isDigit = true :=
    fun m => List.all_eq_true.mpr (hd m)
  unfold isInteger
  rw [toString_toList]
  split_ifs with hn
  · split
    · next cs he => exact absurd (hd n.toNat '+' (by simp [he])) (by decide)
    · next cs he => exact absurd (hd n.toNat '-' (by simp [he])) (by decide)
    · simp [hlast, hall, Nat.toDigits_ne_nil]
  · simp [hlast, hall, Nat.toDigits_ne_nil]

/-! Parameters. -/

/-- The key in a link names the row it was printed for. -/
theorem Param.key_toString (n : Nat) : Param.key (some (toString n)) = some n := by
  have hn : Rails.toI (toString n) = n := toI_toString n
  unfold Param.key
  simp only [hn, Int.natCast_nonneg, if_true, Int.toNat_natCast]

end Rails
