import Stencil.Text.Blank
/-! Decimal digits of every script, and the whole numbers that people write with them. -/
namespace Stencil.Text

/-- The zeros of the scripts that have decimal digits in version 14 of Unicode; the nine other
digits of a script follow its zero. -/
def digitZeros : List Nat := [
  0x30, 0x660, 0x6f0, 0x7c0, 0x966, 0x9e6, 0xa66, 0xae6, 0xb66, 0xbe6, 0xc66, 0xce6, 0xd66,
  0xde6, 0xe50, 0xed0, 0xf20, 0x1040, 0x1090, 0x17e0, 0x1810, 0x1946, 0x19d0, 0x1a80, 0x1a90,
  0x1b50, 0x1bb0, 0x1c40, 0x1c50, 0xa620, 0xa8d0, 0xa900, 0xa9d0, 0xa9f0, 0xaa50, 0xabf0, 0xff10,
  0x104a0, 0x10d30, 0x11066, 0x110f0, 0x11136, 0x111d0, 0x112f0, 0x11450, 0x114d0, 0x11650,
  0x116c0, 0x11730, 0x118e0, 0x11950, 0x11c50, 0x11d50, 0x11da0, 0x16a60, 0x16ac0, 0x16b50,
  0x1d7ce, 0x1d7d8, 0x1d7e2, 0x1d7ec, 0x1d7f6, 0x1e140, 0x1e2f0, 0x1e950, 0x1fbf0]

/-- The value of a decimal digit of any script. -/
def digitValue? (c : CodePoint) : Option Nat :=
  let n := c.toNat
  (digitZeros.find? fun z => z ≤ n && n < z + 10).map (n - ·)

def isAsciiDigit (c : CodePoint) : Bool := '0' ≤ c && c ≤ '9'

/-- The value of ASCII digits, most significant first; other characters count as zero. -/
def natOfDigits (s : Text) : Nat :=
  s.foldl (fun n c => 10 * n + (c.toNat - '0'.toNat)) 0

/-- The value of digits of any script, in which one underscore may stand between two digits.
`value` is that of the digits read so far; `needsDigit` holds where a digit must follow. -/
def groupedDigits? (value : Nat) (needsDigit : Bool) : Text → Option Nat
  | [] => if needsDigit then none else some value
  | c :: s =>
    if c = '_' then
      if needsDigit then none else groupedDigits? value true s
    else match digitValue? c with
      | some d => groupedDigits? (10 * value + d) false s
      | none => none

/-- The greatest number of digits with which an integer is read from data and from arguments. -/
def digitLimit : Nat := 4300

/-- The number of digits in a text. -/
def digitCount (s : Text) : Nat := s.countP fun c => (digitValue? c).isSome

/-- The control characters that separate fields and records. -/
def isSeparator (c : CodePoint) : Bool := 0x1c ≤ c.toNat && c.toNat ≤ 0x1f

/-- The blanks that may surround a number: the separators are not among them. -/
def isNumberBlank (c : CodePoint) : Bool := isBlank c && !isSeparator c

/-- The text without the blanks that may surround a number. -/
def stripNumber (s : Text) : Text :=
  ((s.dropWhile isNumberBlank).reverse.dropWhile isNumberBlank).reverse

/-- The whole number that a text spells: blanks around it, a sign before it and single underscores
between its digits are allowed. -/
def readInt? (s : Text) : Option Int :=
  match stripNumber s with
  | '-' :: digits => (groupedDigits? 0 true digits).map fun n => -(n : Int)
  | '+' :: digits => (groupedDigits? 0 true digits).map fun n => (n : Int)
  | digits => (groupedDigits? 0 true digits).map fun n => (n : Int)

end Stencil.Text
