import Stencil.Datum
import Stencil.Position
/-! Reading JSON: the value that a document spells, or the first fault and its place. A document may
nest to any depth: the stack of calls is taken to be deep enough. -/
namespace Stencil.Json

/-- What is wrong with a document. -/
inductive Cause where
  | byteOrderMark
  | expectingValue
  | expectingKey
  | expectingColon
  | expectingComma
  | unterminatedString
  | controlCharacter
  | invalidEscape
  | invalidUnicodeEscape
  | extraData
deriving DecidableEq

def Cause.message : Cause → Text
  | .byteOrderMark => "Unexpected UTF-8 BOM (decode using utf-8-sig)"
  | .expectingValue => "Expecting value"
  | .expectingKey => "Expecting property name enclosed in double quotes"
  | .expectingColon => "Expecting ':' delimiter"
  | .expectingComma => "Expecting ',' delimiter"
  | .unterminatedString => "Unterminated string starting at"
  | .controlCharacter => "Invalid control character at"
  | .invalidEscape => "Invalid \\escape"
  | .invalidUnicodeEscape => "Invalid \\uXXXX escape"
  | .extraData => "Extra data"

/-- What reading stops at: a fault, at the place from which `rest` of the document was still to be
read, or an integer of more than `limit` digits. -/
inductive Stuck where
  | fault (cause : Cause) (rest : Text)
  | tooManyDigits (limit count : Nat)

/-- A fault and its place in the document. -/
structure Fault where
  cause : Cause
  position : Position
deriving DecidableEq

def Fault.message (f : Fault) : Text :=
  f.cause.message ++ ": line " ++ Text.ofNat f.position.line ++ " column " ++
    Text.ofNat f.position.column ++ " (char " ++ Text.ofNat f.position.offset ++ ")"

/-- Why a document is not read: it is none, or an integer in it has too many digits. -/
inductive Failure where
  | malformed (fault : Fault)
  | tooManyDigits (limit count : Nat)
deriving DecidableEq

def Failure.message : Failure → Text
  | .malformed fault => fault.message
  | .tooManyDigits limit count =>
    "Exceeds the limit (" ++ Text.ofNat limit ++
      " digits) for integer string conversion: value has " ++ Text.ofNat count ++
      " digits; use sys.set_int_max_str_digits() to increase the limit"

/-- What was read, and what follows it. -/
abbrev Reading (α : Type) := Except Stuck (α × Text)

def isSpace (c : CodePoint) : Bool := c = ' ' || c = '\t' || c = '\n' || c = '\r'

def skipSpaces (s : Text) : Text := s.dropWhile isSpace

/-- What follows a literal word, if the text starts with it. -/
def afterWord? (word : Text) (s : Text) : Option Text :=
  if word.isPrefixOf s then some (s.drop word.length) else none

def hexValue? (c : CodePoint) : Option Nat :=
  if '0' ≤ c && c ≤ '9' then some (c.toNat - '0'.toNat)
  else if 'a' ≤ c && c ≤ 'f' then some (c.toNat - 'a'.toNat + 10)
  else if 'A' ≤ c && c ≤ 'F' then some (c.toNat - 'A'.toNat + 10)
  else none

/-- The value of four hexadecimal digits at the start of the text, which may not be all of it. -/
def hexUnit? : Text → Option (Nat × Text)
  | a :: b :: c :: d :: e :: rest => do
    let n := 16 * (16 * (16 * (← hexValue? a) + (← hexValue? b)) + (← hexValue? c)) + (← hexValue? d)
    pure (n, e :: rest)
  | _ => none

def isHighUnit (n : Nat) : Bool := 0xd800 ≤ n && n < 0xdc00

def isLowUnit (n : Nat) : Bool := 0xdc00 ≤ n && n < 0xe000

/-- The code point that an escape `\u` stands for, after that mark: that of one unit of four digits,
which may be a surrogate, or that of two units that form a surrogate pair. -/
def readUnicode (s : Text) : Reading CodePoint :=
  match hexUnit? s with
  | none => .error (.fault .invalidUnicodeEscape ('u' :: s))
  | some (high, rest) =>
    match isHighUnit high, rest with
    | true, '\\' :: 'u' :: more =>
      if more.length < 5 then .ok (CodePoint.ofNat high, rest)
      else match hexUnit? more with
        | none => .error (.fault .invalidUnicodeEscape ('u' :: more))
        | some (low, after) =>
          if isLowUnit low then
            .ok (CodePoint.ofNat (0x10000 + (high - 0xd800) * 0x400 + (low - 0xdc00)), after)
          else .ok (CodePoint.ofNat high, rest)
    | _, _ => .ok (CodePoint.ofNat high, rest)

/-- The code point that a short escape stands for. -/
def shortEscape? (c : CodePoint) : Option CodePoint :=
  if c = '"' || c = '\\' || c = '/' then some c
  else if c = 'b' then some (Char.ofNat 0x08)
  else if c = 'f' then some (Char.ofNat 0x0c)
  else if c = 'n' then some '\n'
  else if c = 'r' then some '\r'
  else if c = 't' then some '\t'
  else none

theorem hexUnit?_length {s r : Text} {n : Nat} (h : hexUnit? s = some (n, r)) :
    r.length + 4 = s.length := by
  unfold hexUnit? at h
  split at h
  · simp only [Option.bind_eq_bind, Option.bind_eq_some_iff, Option.pure_def, Option.some.injEq,
      Prod.mk.injEq] at h
    obtain ⟨_, _, _, _, _, _, _, _, _, rfl⟩ := h
    simp
  · simp at h

theorem readUnicode_length {s r : Text} {c : CodePoint} (h : readUnicode s = .ok (c, r)) :
    r.length < s.length := by
  unfold readUnicode at h
  split at h
  · simp at h
  · next high rest hs =>
    have hlen := hexUnit?_length hs
    split at h
    · next more =>
      split at h
      · obtain ⟨_, rfl⟩ := by simpa using h
        omega
      · split at h
        · simp at h
        · next low after hm =>
          have hmore := hexUnit?_length hm
          simp only [List.length_cons] at hlen
          split at h <;> obtain ⟨_, rfl⟩ := by simpa using h
          · omega
          · simp only [List.length_cons]
            omega
    · obtain ⟨_, rfl⟩ := by simpa using h
      omega

/-- The rest of a string after its opening quote; `whole` is the text from that quote on. -/
def readString (whole : Text) (s : Text) : Reading Text :=
  match s with
  | [] => .error (.fault .unterminatedString whole)
  | '"' :: rest => .ok ([], rest)
  | '\\' :: rest =>
    match rest with
    | [] => .error (.fault .unterminatedString whole)
    | 'u' :: more =>
      match h : readUnicode more with
      | .error stuck => .error stuck
      | .ok (c, after) =>
        have := readUnicode_length h
        match readString whole after with
        | .error stuck => .error stuck
        | .ok (text, after) => .ok (c :: text, after)
    | e :: more =>
      match shortEscape? e with
      | none => .error (.fault .invalidEscape ('\\' :: e :: more))
      | some c =>
        match readString whole more with
        | .error stuck => .error stuck
        | .ok (text, after) => .ok (c :: text, after)
  | c :: rest =>
    if c.toNat < 0x20 then .error (.fault .controlCharacter (c :: rest))
    else match readString whole rest with
      | .error stuck => .error stuck
      | .ok (text, after) => .ok (c :: text, after)
termination_by s.length

/-- The digits of the fraction after a point, if at least one follows. -/
def readFraction : Text → Text × Text
  | '.' :: s =>
    match Text.splitWhile Text.isAsciiDigit s with
    | ([], _) => ([], '.' :: s)
    | (digits, rest) => (digits, rest)
  | s => ([], s)

/-- The exponent after its mark, if it has digits. -/
def readExponent : Text → Option Int × Text
  | e :: s =>
    if e = 'e' || e = 'E' then
      let (negative, body) := match s with
        | '-' :: body => (true, body)
        | '+' :: body => (false, body)
        | _ => (false, s)
      match Text.splitWhile Text.isAsciiDigit body with
      | ([], _) => (none, e :: s)
      | (digits, rest) =>
        let n : Int := Text.natOfDigits digits
        (some (if negative then -n else n), rest)
    else (none, e :: s)
  | [] => (none, [])

/-- The digits before the point: a single zero, or digits that do not start with zero. -/
def readWhole : Text → Option (Text × Text)
  | '0' :: s => some (['0'], s)
  | s => match Text.splitWhile Text.isAsciiDigit s with
    | ([], _) => none
    | parts => some parts

section

variable (limit : Option Nat)

/-- An integer with its sign and digits, of which there may be no more than the limit. -/
def readInteger (negative : Bool) (digits : Text) : Except Stuck Datum :=
  match limit.filter (· < digits.length) with
  | some limit => .error (.tooManyDigits limit digits.length)
  | none =>
    let n : Int := Text.natOfDigits digits
    .ok (.int (if negative then -n else n))

/-- A number: an integer unless it has a fraction or an exponent. -/
def readNumber (s : Text) : Reading Datum :=
  let (negative, body) := match s with
    | '-' :: body => (true, body)
    | _ => (false, s)
  match readWhole body with
  | none => .error (.fault .expectingValue s)
  | some (whole, rest) =>
    let (fraction, rest) := readFraction rest
    let (exponent?, rest) := readExponent rest
    if fraction.isEmpty && exponent?.isNone then
      (readInteger limit negative whole).map fun d => (d, rest)
    else .ok (.float (Binary64.ofLiteral negative whole fraction (exponent?.getD 0)), rest)

/-- The values that are written as words. -/
def words : List (Text × Datum) :=
  [("null", .null), ("true", .bool true), ("false", .bool false), ("NaN", .float (.nan true)),
    ("Infinity", .float (.infinite false)), ("-Infinity", .float (.infinite true))]

/-- A word or a number. -/
def readScalar (s : Text) : Reading Datum :=
  match words.findSome? fun (word, d) => (afterWord? word s).map fun rest => (d, rest) with
  | some result => .ok result
  | none => readNumber limit s

mutual

/-- A value at the start of the text. Every bracket and every item of the text uses up some of
`fuel`; `readDocument` starts with more than its text can use. -/
def readValue (fuel : Nat) (s : Text) : Reading Datum :=
  match fuel, s with
  | 0, _ => .error (.fault .expectingValue s)
  | fuel + 1, s =>
    match s with
    | '"' :: rest => match readString s rest with
      | .error stuck => .error stuck
      | .ok (text, rest) => .ok (.str text, rest)
    | '[' :: rest => match skipSpaces rest with
      | ']' :: rest => .ok (.list [], rest)
      | rest => match readItems fuel rest with
        | .error stuck => .error stuck
        | .ok (items, rest) => .ok (.list items, rest)
    | '\x7b' :: rest => match skipSpaces rest with
      | '\x7d' :: rest => .ok (.mapping .empty, rest)
      | rest => match readMembers fuel rest with
        | .error stuck => .error stuck
        | .ok (members, rest) => .ok (.mapping (Mapping.ofList members), rest)
    | _ => readScalar limit s

/-- The items of an array that has at least one, up to its closing bracket. -/
def readItems (fuel : Nat) (s : Text) : Reading (List Datum) :=
  match fuel with
  | 0 => .error (.fault .expectingValue s)
  | fuel + 1 => match readValue fuel s with
    | .error stuck => .error stuck
    | .ok (d, rest) => match skipSpaces rest with
      | ']' :: rest => .ok ([d], rest)
      | ',' :: rest => match readItems fuel (skipSpaces rest) with
        | .error stuck => .error stuck
        | .ok (ds, rest) => .ok (d :: ds, rest)
      | rest => .error (.fault .expectingComma rest)

/-- The members of an object that has at least one, up to its closing brace. -/
def readMembers (fuel : Nat) (s : Text) : Reading (List (Text × Datum)) :=
  match fuel with
  | 0 => .error (.fault .expectingValue s)
  | fuel + 1 => match s with
    | '"' :: body => match readString s body with
      | .error stuck => .error stuck
      | .ok (key, rest) => match skipSpaces rest with
        | ':' :: rest => match readValue fuel (skipSpaces rest) with
          | .error stuck => .error stuck
          | .ok (d, rest) => match skipSpaces rest with
            | '\x7d' :: rest => .ok ([(key, d)], rest)
            | ',' :: rest => match readMembers fuel (skipSpaces rest) with
              | .error stuck => .error stuck
              | .ok (es, rest) => .ok ((key, d) :: es, rest)
            | rest => .error (.fault .expectingComma rest)
        | rest => .error (.fault .expectingColon rest)
    | _ => .error (.fault .expectingKey s)

end

/-- One value with blanks around it and nothing else. -/
def readDocument (s : Text) : Except Stuck Datum :=
  match s with
  | '\ufeff' :: _ => .error (.fault .byteOrderMark s)
  | _ => match readValue limit (2 * s.length + 1) (skipSpaces s) with
    | .error stuck => .error stuck
    | .ok (d, rest) => match skipSpaces rest with
      | [] => .ok d
      | rest => .error (.fault .extraData rest)

/-- The failure at what reading stops at. -/
def Stuck.failure (s : Text) : Stuck → Failure
  | fault cause rest => .malformed ⟨cause, Position.ofOffset s (s.length - rest.length)⟩
  | tooManyDigits limit count => .tooManyDigits limit count

/-- The value that a document spells, where integers may have up to `limit` digits, if there is a
limit. -/
def read (s : Text) : Except Failure Datum := (readDocument limit s).mapError (Stuck.failure s)

end

end Stencil.Json
