import Mathlib.Data.List.DropRight
import Mathlib.Tactic.Positivity

/-!
# Text scanning

The string helpers the HTTP engine reads header lines with. A `std::string` is a `String`; scanning
works on its characters, one per byte.
-/

namespace DownloadWrapper

/-- The characters `trim_view` strips: space, `\t`, `\r`, `\n`, `\v`, `\f`. -/
def isBlankChar (c : Char) : Bool :=
  c = ' ' || c = '\t' || c = '\r' || c = '\n' || c = '\x0b' || c = '\x0c'

def trimView (s : List Char) : List Char :=
  (s.dropWhile isBlankChar).rdropWhile isBlankChar

/-- What follows the first `sep`, if there is one (`find` and `substr`). -/
def afterFirst (sep : Char) : List Char → Option (List Char)
  | [] => none
  | c :: rest => if c = sep then some rest else afterFirst sep rest

/-- `std::from_chars` into a 64-bit signed integer: an optional minus sign and the longest run of
digits; no digits or a value out of range is an error. Text after the digits is ignored. -/
def fromChars (s : List Char) : Option Int :=
  let negative := s.head? = some '-'
  let digits := (if negative then s.tail else s).takeWhile Char.isDigit
  let magnitude : Int := digits.foldl (fun acc c => acc * 10 + (c.toNat - '0'.toNat : Nat)) 0
  let value := if negative then -magnitude else magnitude
  if digits = [] then none
  else if -2 ^ 63 ≤ value ∧ value < 2 ^ 63 then some value
  else none

theorem fromChars_nonneg {s : List Char} (hsign : s.head? ≠ some '-') {n : Int}
    (h : fromChars s = some n) : 0 ≤ n := by
  have hfold : ∀ digits : List Char,
      0 ≤ digits.foldl (fun (acc : Int) c => acc * 10 + (c.toNat - '0'.toNat : Nat)) 0 := by
    intro digits
    refine List.foldlRecOn (motive := fun acc : Int => 0 ≤ acc) digits _ (le_refl 0) fun acc hacc c _ => ?_
    positivity
  simp only [fromChars, hsign, if_false] at h
  split_ifs at h
  rw [← Option.some.inj h]
  exact hfold _

/-- `std::in_range<int32_t>`. -/
def inRangeInt32 (n : Int) : Bool := -2 ^ 31 ≤ n && n < 2 ^ 31

/-- `std::from_chars` into an `int32_t`, when it takes the whole key. -/
def wholeInt32 (key : List Char) : Option Int :=
  let digits := if key.head? = some '-' then key.tail else key
  if digits.all Char.isDigit then (fromChars key).filter inRangeInt32 else none

def svToInt (s : List Char) : Option Int :=
  if trimView s = [] then none else fromChars (trimView s)

/-- `iequals`: ASCII case is ignored. -/
def iequals (a b : List Char) : Bool :=
  a.map Char.toLower = b.map Char.toLower

/-- Split at the first occurrence of `pattern`: what follows it. -/
def afterPattern (pattern : List Char) : List Char → Option (List Char)
  | [] => if pattern = [] then some [] else none
  | c :: rest =>
      if pattern.isPrefixOf (c :: rest) then some ((c :: rest).drop pattern.length)
      else afterPattern pattern rest

/-- Strip one pair of enclosing double quotes. -/
def unquote (s : List Char) : List Char :=
  if 2 ≤ s.length ∧ s.head? = some '"' ∧ s.getLast? = some '"' then (s.drop 1).dropLast else s

end DownloadWrapper
