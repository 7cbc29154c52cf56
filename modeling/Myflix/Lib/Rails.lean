import Mathlib.Data.List.Basic

/- What Ruby and Rails give an application: blankness, `String#to_i`, the pattern
   of an integer, the casts of a request parameter, the width of a column, and
   has_secure_password. Each definition follows the documented behaviour of
   Ruby 2.2 and Rails 4.1 on PostgreSQL. -/
namespace Rails

/-! Strings. -/

/-- `[[:space:]]`: the Unicode white space characters. -/
def isSpace (c : Char) : Bool :=
  let n := c.toNat
  (0x09 ≤ n && n ≤ 0x0D) || n == 0x20 || n == 0x85 || n == 0xA0 || n == 0x1680 ||
    (0x2000 ≤ n && n ≤ 0x200A) || n == 0x2028 || n == 0x2029 || n == 0x202F || n == 0x205F || n == 0x3000

/-- `String#blank?`. -/
def blank (s : String) : Bool := s.toList.all isSpace

/-- Decimal digits, with single underscores between them; anything else ends the number. -/
def digits : Nat → List Char → Nat
  | n, [] => n
  | n, c :: cs =>
    if c.isDigit then digits (10 * n + (c.toNat - 48)) cs
    else if c == '_' then
      match cs with
      | d :: _ => if d.isDigit then digits n cs else n
      | [] => n
    else n

/-- An unsigned number: `0d` may mark it as decimal, and it starts with a digit or is 0. -/
def magnitude (cs : List Char) : Nat :=
  let ds := match cs with
    | '0' :: 'd' :: ds => ds
    | '0' :: 'D' :: ds => ds
    | ds => ds
  match ds with
  | c :: _ => if c.isDigit then digits 0 ds else 0
  | [] => 0

/-- `String#to_i`: leading white space, a sign, and as many digits as there are. -/
def toI (s : String) : Int :=
  match s.toList.dropWhile (fun c => c == ' ' || (9 ≤ c.toNat && c.toNat ≤ 13)) with
  | '-' :: cs => -(magnitude cs : Int)
  | '+' :: cs => magnitude cs
  | cs => magnitude cs

/-- The pattern `\A[+-]?\d+\Z` by which `only_integer` accepts a raw value; `\Z` lets one
    line break follow the digits. -/
def isInteger (s : String) : Bool :=
  let cs := match s.toList with
    | '+' :: cs => cs
    | '-' :: cs => cs
    | cs => cs
  let ds := if cs.getLast? == some '\n' then cs.dropLast else cs
  !ds.isEmpty && ds.all Char.isDigit

/-! Request parameters: missing (nil), or the string that was submitted. -/

abbrev Param := Option String

/-- `Object#blank?` of a parameter. -/
def Param.blank : Param → Bool
  | none => true
  | some s => Rails.blank s

/-- `to_i` of a parameter; `nil.to_i` is 0. -/
def Param.toI : Param → Int
  | none => 0
  | some s => Rails.toI s

/-- The key a parameter names in `find` and in `where(id: ...)`: nil names none, a string is
    cast with `to_i`, and no row has a negative key. -/
def Param.key : Param → Option Nat
  | none => none
  | some s => if 0 ≤ Rails.toI s then some (Rails.toI s).toNat else none

/-- The value `update_column` writes to an integer column: the string as it is, cast. -/
def Param.int : Param → Option Int := Option.map Rails.toI

/-- The value an attribute assignment writes to an integer column: a blank string is nil. -/
def Param.assigned (p : Param) : Option Int := if p.blank then none else p.int

/-- `validates_numericality_of ..., only_integer: true` of a parameter. -/
def Param.isInteger : Param → Bool
  | none => false
  | some s => Rails.isInteger s

theorem Param.toI_of_key {p : Param} {k : Nat} (h : p.key = some k) : p.toI = k := by
  cases p with
  | none => cases h
  | some s =>
    simp only [Param.key] at h
    split at h
    · simp only [Option.some.injEq] at h
      simp only [Param.toI]
      omega
    · cases h

/-! Columns. -/

/-- A `t.integer` column holds four bytes; PostgreSQL refuses a value outside. -/
def fitsInteger (n : Int) : Bool := -2147483648 ≤ n && n ≤ 2147483647

/-- NULL fits, and so does every value in the range. -/
def fitsColumn : Option Int → Bool
  | none => true
  | some n => fitsInteger n

/-- What a `t.string` column, `character varying(255)` in Rails 4.1, can hold. -/
def holdsString : Option String → Bool
  | none => true
  | some s => s.toList.length ≤ 255

/-- What PostgreSQL takes for such a column: a longer value only if all that is too much are spaces. -/
def fitsString : Option String → Bool
  | none => true
  | some s => (s.toList.drop 255).all (· == ' ')

/-- What the column keeps of a value; the uniqueness validator compares this much of it, too. -/
def truncated : Option String → Option String := Option.map (fun s => String.ofList (s.toList.take 255))

theorem truncated_of_holds {v : Option String} (h : holdsString v = true) : truncated v = v := by
  cases v with
  | none => rfl
  | some s =>
    simp only [holdsString, decide_eq_true_eq] at h
    simp [truncated, List.take_of_length_le h]

theorem holdsString_truncated (v : Option String) : holdsString (truncated v) = true := by
  cases v with
  | none => rfl
  | some s =>
    simp only [truncated, Option.map_some, holdsString, String.toList_ofList, decide_eq_true_eq]
    exact List.length_take_le 255 s.toList

theorem truncated_truncated (v : Option String) : truncated (truncated v) = truncated v :=
  truncated_of_holds (holdsString_truncated v)

/-- The spaces PostgreSQL drops are blank, so a value is blank exactly when what is kept of it is. -/
theorem blank_truncated {v : Option String} (h : fitsString v = true) :
    Param.blank (truncated v) = Param.blank v := by
  cases v with
  | none => rfl
  | some s =>
    have hdrop : (s.toList.drop 255).all isSpace = true := by
      simp only [fitsString, List.all_eq_true, beq_iff_eq] at h ⊢
      intro c hc
      rw [h c hc]
      rfl
    have hsplit : s.toList.all isSpace = ((s.toList.take 255).all isSpace && (s.toList.drop 255).all isSpace) := by
      rw [← List.all_append, List.take_append_drop]
    simp only [truncated, Option.map_some, Param.blank, Rails.blank, String.toList_ofList, hsplit, hdrop,
      Bool.and_true]

/-! Passwords (bcrypt). -/

/-- A password digest: the salt drawn for it and the password that was hashed. -/
structure Digest where
  salt : Nat
  secret : String
  deriving DecidableEq, Repr

/-- `authenticate`: exactly the password last hashed; a missing one is hashed as "". -/
def Digest.accepts (d : Digest) (password : Param) : Bool := d.secret == password.getD ""

end Rails
