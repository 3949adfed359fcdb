import Stencil.Text
/-! Line ends. -/
namespace Stencil.Text

/-- A carriage return, alone or before a line feed, becomes a line feed. -/
def normalizeNewlines : Text → Text
  | '\r' :: '\n' :: s => '\n' :: normalizeNewlines s
  | '\r' :: s => '\n' :: normalizeNewlines s
  | c :: s => c :: normalizeNewlines s
  | [] => []

/-- The characters that end a line where text is shown: line feed, carriage return, the tabs and feeds
between them, three separators, and the line ends of Unicode. -/
def isLineEnd (c : CodePoint) : Bool :=
  let n := c.toNat
  (0x0a ≤ n && n ≤ 0x0d) || (0x1c ≤ n && n ≤ 0x1e) || n == 0x85 || n == 0x2028 || n == 0x2029

/-- The lines of a text without their ends. A carriage return before a line feed ends no line of its
own, and no line begins at the end of the text. -/
def lines : Text → List Text
  | [] => []
  | '\r' :: '\n' :: s => [] :: lines s
  | c :: s =>
    if isLineEnd c then [] :: lines s
    else match lines s with
      | [] => [[c]]
      | l :: ls => (c :: l) :: ls

/-- No carriage return is left. -/
theorem notMem_normalizeNewlines (s : Text) : ↑ '\r' ∉ normalizeNewlines s := by
  fun_induction normalizeNewlines s with
  | case1 s ih => simpa using ih
  | case2 s _ ih => simpa using ih
  | case3 c s _ hc ih => simpa [Ne.symm (hc)] using ih
  | case4 => simp

/-- Text without carriage returns is left alone. -/
theorem normalizeNewlines_of_notMem {s : Text} (h : ↑ '\r' ∉ s) : normalizeNewlines s = s := by
  fun_induction normalizeNewlines s with
  | case1 s => simp at h
  | case2 s => simp at h
  | case3 c s _ _ ih =>
    simp only [List.mem_cons, not_or] at h
    rw [ih h.2]
  | case4 => rfl

end Stencil.Text
