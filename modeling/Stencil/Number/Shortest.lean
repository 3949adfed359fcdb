import Stencil.Number.Binary64
/-! The shortest decimal text that reads back as a given binary64 number. -/
namespace Stencil.Binary64

/-- A positive decimal number `digits * 10 ^ exponent`. -/
structure Decimal where
  digits : Nat
  exponent : Int
deriving DecidableEq

/-- Every positive number is at least `10 ^ -324`, so its first 17 digits end above `10 ^ -342`. -/
def gridPlaces : Nat := 342

/-- The fraction `m * 2 ^ e`. -/
def fraction (m : Nat) (e : Int) : Nat × Nat :=
  if 0 ≤ e then (m * Nat.pow 2 e.toNat, 1) else (m, Nat.pow 2 (-e).toNat)

/-- `n / d` in units of `10 ^ -k`, as a fraction. -/
def inUnits (k : Int) (n d : Nat) : Nat × Nat :=
  if 0 ≤ k then (n * Nat.pow 10 k.toNat, d) else (n, d * Nat.pow 10 (-k).toNat)

/-- Whether `x * 10 ^ k` rounds to `m * 2 ^ e`: it lies between the midpoints to the two neighbours,
and a midpoint itself belongs to the even side. The lower neighbour of a power of two is nearer. -/
def readsBack (m : Nat) (e : Int) (x : Nat) (k : Int) : Bool :=
  let (n, d) := inUnits (-k) (fraction 1 (e - 2)).1 (fraction 1 (e - 2)).2
  let below := if m = Nat.pow 2 (precision - 1) && leastExponent < e then 1 else 2
  let low := (4 * m - below) * n
  let high := (4 * m + 2) * n
  if m % 2 = 0 then low ≤ x * d && x * d ≤ high else low < x * d && x * d < high

/-- The place of the leading digit: `10 ^ k` is the greatest power of ten not above `n / d`. -/
def leadingPlace (n d : Nat) : Int :=
  ((Nat.toDigits 10 (n * Nat.pow 10 gridPlaces / d)).length : Int) - 1 - gridPlaces

/-- The better of the two neighbours of `m * 2 ^ e` among the multiples of `10 ^ k`, if one reads
back: the nearer one where both do, and the even one where they are equally near. -/
def onGrid? (m : Nat) (e k : Int) : Option Decimal :=
  let (n, d) := inUnits (-k) (fraction m e).1 (fraction m e).2
  let x := n / d
  let nearer := if roundDiv n d = x then [x, x + 1] else [x + 1, x]
  (nearer.find? fun y => readsBack m e y k).map (⟨·, k⟩)

/-- The decimal with the fewest digits that reads back as `m * 2 ^ e`, and the nearest of those.
Seventeen digits always suffice. -/
def shortest (m : Nat) (e : Int) : Decimal :=
  let place := leadingPlace (fraction m e).1 (fraction m e).2
  let grids := (List.range 17).map fun (i : Nat) => place - (i : Int)
  (grids.findSome? fun k => onGrid? m e k).getD ⟨m, 0⟩

/-- `digits` with a point after the first `places`, zeros being added where digits are missing. A
whole number gets the fraction `.0`. -/
def positional (digits : Text) (places : Int) : Text :=
  if places ≤ 0 then "0." ++ Text.zeros (-places).toNat ++ digits
  else if digits.length ≤ places then
    digits ++ Text.zeros (places.toNat - digits.length) ++ ".0"
  else digits.take places.toNat ++ ↑ '.' :: digits.drop places.toNat

/-- One digit, the others after a point, and the exponent with its sign and at least two digits. -/
def scientific (digits : Text) (exponent : Int) : Text :=
  let mantissa := match digits with
    | c :: d :: rest => c :: ↑ '.' :: d :: rest
    | _ => digits
  let power := Text.ofNat exponent.natAbs
  mantissa ++ (if exponent < 0 then ("e-" : Text) else "e+") ++
    Text.zeros (2 - power.length) ++ power

/-- A positive decimal is written positionally from `10 ^ -4` to below `10 ^ 16`. -/
def Decimal.text (x : Decimal) : Text :=
  let written := Text.ofNat x.digits
  let digits := (written.reverse.dropWhile (· = ↑ '0')).reverse
  let exponent := x.exponent + written.length - 1
  if -4 ≤ exponent && exponent < 16 then positional digits (exponent + 1)
  else scientific digits exponent

/-- The text of a number: its shortest decimal. -/
def text : Binary64 → Text
  | .nan _ => "nan"
  | .infinite negative => if negative then "-inf" else "inf"
  | .finite negative m e =>
    (if negative then [↑ '-'] else []) ++ (if m = 0 then ("0.0" : Text) else (shortest m e).text)

/-- The number that a text of this form spells: a decimal with an optional fraction and exponent,
or the name of one that is not finite. -/
def ofText? (s : Text) : Option Binary64 :=
  let (negative, body) := match s with
    | '-' :: rest => (true, rest)
    | _ => (false, s)
  if body = "nan" then some (.nan false)
  else if body = "inf" then some (.infinite negative)
  else
    let (whole, rest) := Text.splitWhile Text.isAsciiDigit body
    let (fraction, rest) := match rest with
      | '.' :: rest => Text.splitWhile Text.isAsciiDigit rest
      | _ => ([], rest)
    let exponent? := match rest with
      | [] => some 0
      | 'e' :: power => Text.readInt? power
      | _ => none
    if whole.isEmpty then none else exponent?.map (ofLiteral negative whole fraction)

end Stencil.Binary64
