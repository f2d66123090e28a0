/-
DiamondCollectors/Py/Num.lean

Python 2's conversions from a byte string to a number, as the collectors call
them: `int(s)`, `long(s)` and `float(s)`.

All three skip whitespace at both ends and accept a sign.  `long` also accepts
a trailing `L`.  `float` accepts decimal literals with an optional fraction and
exponent, and gives their exact value in `ℚ`.  Left out of the model are the
special literals `inf`, `infinity` and `nan`, which Python accepts and the
model rejects; overflow, where Python reads `1e400` as `inf` and the model keeps
its value; and rounding to a binary64.
-/
import Mathlib.Algebra.Order.Field.Rat
import Mathlib.Data.Rat.Defs
import DiamondCollectors.Py.Text

namespace Diamond

/-! ### Digits and signs -/

/-- Python 2 `isdigit` on one byte. -/
def isDigit (c : Char) : Bool := '0' ≤ c && c ≤ '9'

/-- `s.strip()`: `s` without whitespace at either end. -/
def strip (s : List Char) : List Char :=
  ((s.dropWhile isSpace).reverse.dropWhile isSpace).reverse

/-- `s.rstrip()`: `s` without whitespace at its end. -/
def rstrip (s : List Char) : List Char :=
  (s.reverse.dropWhile isSpace).reverse

/-- The value of a non-empty run of decimal digits. -/
def digitsValue (d : List Char) : Option Nat :=
  if d ≠ [] ∧ d.all isDigit then
    some (d.foldl (fun n c => 10 * n + (c.toNat - '0'.toNat)) 0)
  else none

/-- An optional sign followed by decimal digits, nothing else. -/
def signedValue : List Char → Option Int
  | '-' :: d => (digitsValue d).map fun n => -(n : Int)
  | '+' :: d => (digitsValue d).map fun n => (n : Int)
  | d => (digitsValue d).map fun n => (n : Int)

/-! ### `int`, `long`, `float` -/

/-- `int(s)` in base 10; `none` where Python raises `ValueError`. -/
def pyInt (s : List Char) : Option Int := signedValue (strip s)

/-- `long(s)` in base 10: as `int`, and a trailing `L` or `l` is allowed. -/
def pyLong (s : List Char) : Option Int :=
  let t := strip s
  signedValue (if t.getLast? = some 'L' ∨ t.getLast? = some 'l' then t.dropLast else t)

/-- The exponent part of a float literal: empty, or `e`/`E` and a signed integer. -/
def exponentValue : List Char → Option Int
  | [] => some 0
  | e :: r => if e = 'e' ∨ e = 'E' then signedValue r else none

/-- An unsigned decimal literal `digits [. digits] [exponent]` with at least one
digit before the exponent, as mantissa digits, fraction length and exponent. -/
def decimalParts (u : List Char) : Option (List Char × Nat × Int) :=
  let whole := u.takeWhile isDigit
  let (frac, rest) :=
    match u.dropWhile isDigit with
    | '.' :: r => (r.takeWhile isDigit, r.dropWhile isDigit)
    | r => ([], r)
  if whole = [] ∧ frac = [] then none
  else (exponentValue rest).map fun e => (whole ++ frac, frac.length, e)

/-- The value of an unsigned decimal literal. -/
def decimalValue (u : List Char) : Option ℚ :=
  (decimalParts u).bind fun p =>
    (digitsValue p.1).map fun m => (m : ℚ) * (10 : ℚ) ^ (p.2.2 - p.2.1)

/-- `float(s)` on a decimal literal; `none` where Python raises `ValueError`. -/
def pyFloat (s : List Char) : Option ℚ :=
  match strip s with
  | '-' :: u => (decimalValue u).map fun q => -q
  | '+' :: u => decimalValue u
  | u => decimalValue u

/-! ### Conversions of digit strings -/

/-- A run of digits is a whole decimal literal, with no fraction or exponent. -/
theorem decimalParts_of_digits {d : List Char} (hd : d ≠ []) (hdig : d.all isDigit = true) :
    decimalParts d = some (d, 0, 0) := by
  have hall : ∀ c ∈ d, isDigit c = true := by simpa using hdig
  have htake : d.takeWhile isDigit = d := List.takeWhile_eq_self_iff.mpr hall
  have hdrop : d.dropWhile isDigit = [] := List.dropWhile_eq_nil_iff.mpr hall
  simp [decimalParts, htake, hdrop, hd, exponentValue]

/-- `float` of a run of digits, with whitespace around it, is its value. -/
theorem pyFloat_of_digits {s d : List Char} (hs : strip s = d) (hd : d ≠ [])
    (hdig : d.all isDigit = true) : pyFloat s = (digitsValue d).map fun n => (n : ℚ) := by
  obtain ⟨c, d', rfl⟩ := List.exists_cons_of_ne_nil hd
  have hc : isDigit c = true := by simp at hdig; exact hdig.1
  have hm : c ≠ '-' := by rintro rfl; simp [isDigit] at hc
  have hp : c ≠ '+' := by rintro rfl; simp [isDigit] at hc
  have hval : pyFloat s = decimalValue (c :: d') := by
    unfold pyFloat
    rw [hs]
    split
    · next h => exact absurd (List.cons.inj h).1 hm
    · next h => exact absurd (List.cons.inj h).1 hp
    · rfl
  rw [hval, decimalValue, decimalParts_of_digits hd hdig]
  cases digitsValue (c :: d' ++ []) <;> simp

end Diamond
