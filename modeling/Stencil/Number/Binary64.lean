import Stencil.Text.Digit
/-! Binary floating-point numbers of 64 bits, exactly: what they are worth and the decimal texts
that round to them. -/
namespace Stencil

/-- A number of the binary64 format. A finite one is worth `significand * 2 ^ exponent`, negated if
it is negative; zero has a sign too. The NaN that documents write is one object wherever it occurs;
any other NaN is an object of its own. -/
inductive Binary64 where
  | finite (negative : Bool) (significand : Nat) (exponent : Int)
  | infinite (negative : Bool)
  | nan (written : Bool)
deriving DecidableEq

namespace Binary64

/-- The exponent of the smallest positive number. -/
def leastExponent : Int := -1074

/-- The exponent of the greatest numbers. -/
def greatestExponent : Int := 971

/-- A significand of full precision lies in `[2 ^ 52, 2 ^ 53)`. -/
def precision : Nat := 53

/-- `n / d` rounded to the nearest integer, a half going to the even one. -/
def roundDiv (n d : Nat) : Nat :=
  let q := n / d
  let r := n % d
  if 2 * r < d then q
  else if d < 2 * r then q + 1
  else if q % 2 = 0 then q else q + 1

/-- The fraction `n / d` scaled by `2 ^ -e`, as a new fraction. -/
def scale (n d : Nat) (e : Int) : Nat × Nat :=
  if 0 ≤ e then (n, d * Nat.pow 2 e.toNat) else (n * Nat.pow 2 (-e).toNat, d)

/-- The number nearest to the positive fraction `n / d`. -/
def ofFraction (negative : Bool) (n d : Nat) : Binary64 :=
  let estimate : Int := (n.log2 : Int) - d.log2 - (precision - 1)
  let full := scale n d estimate
  let e := if full.1 / full.2 < Nat.pow 2 (precision - 1) then estimate - 1 else estimate
  let e := max e leastExponent
  let exact := scale n d e
  let m := roundDiv exact.1 exact.2
  let (m, e) := if m = Nat.pow 2 precision then (Nat.pow 2 (precision - 1), e + 1) else (m, e)
  if greatestExponent < e then .infinite negative else .finite negative m e

/-- The number nearest to `digits * 10 ^ exponent`. Where the decimal exponent alone puts the value
beyond the greatest or below half the smallest number, the power of ten is not computed. -/
def ofDecimal (negative : Bool) (digits : Nat) (exponent : Int) : Binary64 :=
  let magnitude := exponent + (Nat.toDigits 10 digits).length
  if digits = 0 || magnitude < -330 then .finite negative 0 leastExponent
  else if 320 < magnitude then .infinite negative
  else if 0 ≤ exponent then ofFraction negative (digits * Nat.pow 10 exponent.toNat) 1
  else ofFraction negative digits (Nat.pow 10 (-exponent).toNat)

/-- The number that has the value of an integer literal's digits, fraction digits and exponent. -/
def ofLiteral (negative : Bool) (whole fraction : Text) (exponent : Int) : Binary64 :=
  ofDecimal negative (Text.natOfDigits (whole ++ fraction)) (exponent - fraction.length)

def isNaN : Binary64 → Bool
  | .nan _ => true
  | _ => false

def isZero : Binary64 → Bool
  | .finite _ m _ => m = 0
  | _ => false

/-- The integer that a number is worth, if it is one. -/
def toInt? : Binary64 → Option Int
  | .finite negative m e =>
    let sign : Int := if negative then -1 else 1
    if 0 ≤ e then some (sign * (m * Nat.pow 2 e.toNat : Nat))
    else if m % Nat.pow 2 (-e).toNat = 0 then some (sign * (m / Nat.pow 2 (-e).toNat : Nat))
    else none
  | _ => none

/-- Equality of values: both zeros are equal, and NaN equals nothing. -/
def eqValue : Binary64 → Binary64 → Bool
  | .finite s m e, .finite t n f =>
    if m = 0 || n = 0 then m = 0 && n = 0
    else s == t && (m, e) = (n, f)
  | .infinite s, .infinite t => s == t
  | _, _ => false

end Binary64
end Stencil
