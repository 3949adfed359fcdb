import Stencil.Text
/-! Blank characters and the removal of blanks around a text. -/
namespace Stencil.Text

/-- The blank characters: the ASCII controls that separate words or fields, the space, and the
spaces and line separators of Unicode. -/
def isBlank (c : CodePoint) : Bool :=
  let n := c.toNat
  (0x09 ≤ n && n ≤ 0x0d) || (0x1c ≤ n && n ≤ 0x20) || n == 0x85 || n == 0xa0 || n == 0x1680 ||
    (0x2000 ≤ n && n ≤ 0x200a) || n == 0x2028 || n == 0x2029 || n == 0x202f || n == 0x205f ||
    n == 0x3000

def stripStart (s : Text) : Text := s.dropWhile isBlank

def stripEnd (s : Text) : Text := (s.reverse.dropWhile isBlank).reverse

/-- The text without the blanks at both ends. -/
def strip (s : Text) : Text := stripEnd (stripStart s)

/-- A text whose ends are not blank. -/
def Trimmed (s : Text) : Prop :=
  (∀ c ∈ s.head?, isBlank c = false) ∧ (∀ c ∈ s.getLast?, isBlank c = false)

variable {s : Text}

theorem stripStart_of_head (h : ∀ c ∈ s.head?, isBlank c = false) : stripStart s = s := by
  cases s with
  | nil => rfl
  | cons c s => simp [stripStart, h c rfl]

theorem stripEnd_of_last (h : ∀ c ∈ s.getLast?, isBlank c = false) : stripEnd s = s := by
  have : stripStart s.reverse = s.reverse := stripStart_of_head (by simpa using h)
  rw [stripStart] at this
  rw [stripEnd, this, List.reverse_reverse]

theorem strip_of_trimmed (h : Trimmed s) : strip s = s := by
  rw [strip, stripStart_of_head h.1, stripEnd_of_last h.2]

end Stencil.Text
