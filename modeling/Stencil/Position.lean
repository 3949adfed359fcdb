import Stencil.Text
/-! Places in a source text. -/
namespace Stencil

/-- A place in a text: the number of characters before it, its line, and its column in that line.
Lines and columns count from one; only line feeds end a line. -/
structure Position where
  offset : Nat
  line : Nat
  column : Nat
deriving DecidableEq

namespace Position

variable {p : Position} {s t : Text}

/-- The beginning of a text. -/
def start : Position := ⟨0, 1, 1⟩

/-- The place after one more character. -/
def next (p : Position) (c : CodePoint) : Position :=
  if c = '\n' then ⟨p.offset + 1, p.line + 1, 1⟩ else ⟨p.offset + 1, p.line, p.column + 1⟩

/-- The place after some more text. -/
def advance (p : Position) (s : Text) : Position := s.foldl next p

/-- The place at an offset of a text. Past the end, columns count on in the last line. -/
def ofOffset (source : Text) (offset : Nat) : Position :=
  let p := start.advance (source.take offset)
  ⟨offset, p.line, p.column + (offset - source.length)⟩

@[simp] theorem advance_nil (p : Position) : p.advance [] = p := rfl

theorem advance_cons (p : Position) (c : CodePoint) (s : Text) :
    p.advance (c :: s) = (p.next c).advance s := rfl

theorem advance_append (p : Position) (s t : Text) :
    p.advance (s ++ t) = (p.advance s).advance t := List.foldl_append

theorem offset_next (p : Position) (c : CodePoint) : (p.next c).offset = p.offset + 1 := by
  unfold next
  split <;> rfl

theorem offset_advance (p : Position) (s : Text) :
    (p.advance s).offset = p.offset + s.length := by
  induction s generalizing p with
  | nil => rfl
  | cons c s ih => rw [advance_cons, ih, offset_next, List.length_cons]; omega

/-- Reading on from the start reaches the place at the offset read so far. -/
theorem ofOffset_append (s t : Text) : ofOffset (s ++ t) s.length = start.advance s := by
  have h : (start.advance s).offset = s.length := by simp [offset_advance, start]
  have hz : s.length - (s ++ t).length = 0 := by simp
  rw [ofOffset, List.take_left, hz, ← h]
  rfl

end Position

/-- A stretch of a source, from a position to an offset. The file is the name of the source. -/
structure Location where
  file : Option Text
  start : Position
  stop : Nat
deriving DecidableEq

namespace Location

/-- The stretch from an offset of a text to another one, which is the same unless given. -/
def ofOffset (source : Text) (offset : Nat) (stop : Option Nat) (file : Option Text) : Location :=
  ⟨file, Position.ofOffset source offset, stop.getD offset⟩

/-- The place of what stands in no source. -/
def unknown : Location := ⟨none, ⟨0, 0, 0⟩, 0⟩

/-- The name of the file, unless it is empty, then line and column. -/
def text (l : Location) : Text :=
  let place := Text.ofNat l.start.line ++ ↑ ':' :: Text.ofNat l.start.column
  match l.file with
  | none | some [] => place
  | some file => file ++ ↑ ':' :: place

end Location
end Stencil
