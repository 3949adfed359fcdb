import Stencil.Text
/-! UTF-8. What is in files is read and written strictly: the first bytes that form no character, or
the first surrogates, which have no bytes, are reported with their place. In the names of files such
bytes are kept, each as a surrogate of its own. -/
namespace Stencil

namespace Utf8

/-- Why some bytes form no character. -/
inductive Cause where
  | invalidStart
  | invalidContinuation
  | unexpectedEnd
deriving DecidableEq

/-- Bytes that form no character: the offset of the first, their number and the first itself. -/
structure Fault where
  cause : Cause
  offset : Nat
  length : Nat
  first : UInt8
deriving DecidableEq

def Cause.message : Cause → Text
  | .invalidStart => "invalid start byte"
  | .invalidContinuation => "invalid continuation byte"
  | .unexpectedEnd => "unexpected end of data"

def Fault.message (f : Fault) : Text :=
  let place : Text :=
    if f.length = 1 then
      "byte 0x" ++ Text.ofHex 2 f.first.toNat ++ " in position " ++ Text.ofNat f.offset
    else
      "bytes in position " ++ Text.ofNat f.offset ++ "-" ++ Text.ofNat (f.offset + f.length - 1)
  "'utf-8' codec can't decode " ++ place ++ ": " ++ f.cause.message

/-- How many bytes the first one announces; none may start with a continuation byte, nor with one
that would spell a character longer than needed or above the last code point. -/
def width? (b : UInt8) : Option Nat :=
  if b < 0x80 then some 1
  else if b < 0xc2 then none
  else if b < 0xe0 then some 2
  else if b < 0xf0 then some 3
  else if b < 0xf5 then some 4
  else none

/-- Whether `b` may come second after `a`: a continuation byte, and in the right part of the range
where `a` could start a longer spelling, a surrogate or a code point that does not exist. -/
def second (a b : UInt8) : Bool :=
  let low : UInt8 := if a = 0xe0 then 0xa0 else if a = 0xf0 then 0x90 else 0x80
  let high : UInt8 := if a = 0xed then 0x9f else if a = 0xf4 then 0x8f else 0xbf
  low ≤ b && b ≤ high

def continuation (b : UInt8) : Bool := 0x80 ≤ b && b ≤ 0xbf

/-- How many of the announced bytes after the first fit, up to the first that does not. -/
def fitting (a : UInt8) (width : Nat) (bytes : List UInt8) : Nat :=
  match (bytes.take (width - 1)) with
  | [] => 0
  | b :: bs => if second a b then 1 + (bs.takeWhile continuation).length else 0

/-- The code point that `a` and the bytes after it spell. -/
def codePoint (a : UInt8) (rest : List UInt8) : Nat :=
  let lead := match rest.length with
    | 0 => a.toNat
    | 1 => a.toNat - 0xc0
    | 2 => a.toNat - 0xe0
    | _ => a.toNat - 0xf0
  rest.foldl (fun n b => n * 64 + (b.toNat - 0x80)) lead

/-- The first character of the bytes `a :: rest` with the bytes after it, or why there is none and how
many of the bytes are to blame. -/
def readFirst (a : UInt8) (rest : List UInt8) : Except (Cause × Nat) (Char × List UInt8) :=
  match width? a with
  | none => .error (.invalidStart, 1)
  | some width =>
    let good := fitting a width rest
    if good + 1 = width then .ok (Char.ofNat (codePoint a (rest.take good)), rest.drop good)
    else if good = rest.length then .error (.unexpectedEnd, good + 1)
    else .error (.invalidContinuation, good + 1)

/-- Each character takes up bytes. -/
theorem length_le_of_readFirst {a : UInt8} {rest more : List UInt8} {c : Char}
    (h : readFirst a rest = .ok (c, more)) : more.length ≤ rest.length := by
  unfold readFirst at h
  split at h
  · cases h
  · dsimp only at h
    split at h
    · obtain ⟨-, rfl⟩ := Prod.mk.inj (Except.ok.inj h)
      exact (List.drop_sublist _ rest).length_le
    · split at h <;> cases h

/-- Reads bytes from offset `offset` on. -/
def decodeFrom (offset : Nat) (bytes : List UInt8) : Except Fault Text :=
  match bytes with
  | [] => .ok []
  | a :: rest =>
    match h : readFirst a rest with
    | .error (cause, length) => .error ⟨cause, offset, length, a⟩
    | .ok (c, more) =>
      have := length_le_of_readFirst h
      (decodeFrom (offset + (rest.length + 1 - more.length)) more).map (.scalar c :: ·)
termination_by bytes.length

/-- The text that the bytes spell. -/
def decode (bytes : List UInt8) : Except Fault Text := decodeFrom 0 bytes

/-- The surrogate that stands for a byte in a name. -/
def escape (b : UInt8) : CodePoint :=
  .surrogate ⟨0x400 + b.toNat, by have := b.toNat_lt; omega⟩

/-- The name that the bytes spell. A byte that starts no character is kept as a surrogate. -/
def decodeName (bytes : List UInt8) : Text :=
  match bytes with
  | [] => []
  | a :: rest =>
    match h : readFirst a rest with
    | .error _ => escape a :: decodeName rest
    | .ok (c, more) =>
      have := length_le_of_readFirst h
      .scalar c :: decodeName more
termination_by bytes.length

/-- The bytes of one character. -/
def encodeChar (c : Char) : List UInt8 :=
  let n := c.toNat
  let tail (k : Nat) : UInt8 := UInt8.ofNat (0x80 + n / Nat.pow 64 k % 64)
  if n < 0x80 then [UInt8.ofNat n]
  else if n < 0x800 then [UInt8.ofNat (0xc0 + n / 64), tail 0]
  else if n < 0x10000 then [UInt8.ofNat (0xe0 + n / Nat.pow 64 2), tail 1, tail 0]
  else [UInt8.ofNat (0xf0 + n / Nat.pow 64 3), tail 2, tail 1, tail 0]

/-- The bytes of one code point. A surrogate that stands for a byte does so by its last seven bits. -/
def encodeOne : CodePoint → List UInt8
  | .scalar c => encodeChar c
  | .surrogate n => [UInt8.ofNat (0x80 + n % 0x80)]

/-- The bytes of a text all of whose code points can be encoded. -/
def bytes (s : Text) : List UInt8 := s.flatMap encodeOne

/-- Surrogates that cannot be encoded: the offset of the first, their number and the first itself. -/
structure EncodeFault where
  offset : Nat
  length : Nat
  first : CodePoint
deriving DecidableEq

def EncodeFault.message (f : EncodeFault) : Text :=
  let place : Text :=
    if f.length = 1 then
      "character '\\u" ++ Text.ofHex 4 f.first.toNat ++ "' in position " ++ Text.ofNat f.offset
    else
      "characters in position " ++ Text.ofNat f.offset ++ "-" ++
        Text.ofNat (f.offset + f.length - 1)
  "'utf-8' codec can't encode " ++ place ++ ": surrogates not allowed"

/-- Whether a code point stands for a byte of a name that starts no character. -/
def isEscape : CodePoint → Bool
  | .scalar _ => false
  | .surrogate n => 0x480 ≤ n.val && n.val < 0x500

/-- The first surrogates of a text that are not `allowed`, up to the next character. The text starts
at offset `offset`. -/
def faultFrom (allowed : CodePoint → Bool) (offset : Nat) : Text → Option EncodeFault
  | [] => none
  | c :: s =>
    if c.isSurrogate && !allowed c then
      some ⟨offset, ((c :: s).takeWhile CodePoint.isSurrogate).length, c⟩
    else faultFrom allowed (offset + 1) s

/-- What keeps a text from being the content of a file. -/
def contentFault? (s : Text) : Option EncodeFault := faultFrom (fun _ => false) 0 s

/-- What keeps a text from being the name of a file. -/
def nameFault? (s : Text) : Option EncodeFault := faultFrom isEscape 0 s

/-- The content of a file with the text `s`. -/
def encode (s : Text) : Except EncodeFault (List UInt8) :=
  match contentFault? s with
  | some fault => .error fault
  | none => .ok (bytes s)

end Utf8

/-- The number of bytes of a text. -/
def Text.utf8Length (s : Text) : Nat := (Utf8.bytes s).length

end Stencil
