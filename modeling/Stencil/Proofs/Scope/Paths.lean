import Stencil.Proofs.Datum.Alike
import Stencil.Proofs.Text.Numeral
/-! Paths put together: behind what its first part finds, a path leads where its second part leads
from there. -/
namespace Stencil

namespace Datum

variable {items : List Datum} {name : Text} {n : Nat}

/-- Nothing is found behind what is absent. -/
theorem foldl_step_absent (names : List Text) : names.foldl step .absent = .absent := by
  induction names with
  | nil => rfl
  | cons name names ih => exact ih

theorem elementAt_of_numeral (hn : n < items.length) (hname : name.Numeral n) :
    elementAt items name = items[n] := by
  obtain ⟨hne, hdigits, rfl⟩ := Text.numeral_iff.1 hname
  have hguard : (!name.isEmpty && name.all Text.isAsciiDigit) = true := by
    simpa [hne] using hdigits
  rw [elementAt, if_pos hguard, List.getElem?_eq_getElem hn]
  rfl

theorem elementAt_of_not_numeral (h : ∀ n < items.length, ¬ name.Numeral n) :
    elementAt items name = .absent := by
  unfold elementAt
  split
  · next hguard =>
    have hdigits : name ≠ [] ∧ ∀ c ∈ name, Text.isAsciiDigit c := by simpa using hguard
    have hlong : items.length ≤ Text.natOfDigits name := Nat.not_lt.1 fun hlt =>
      h _ hlt (Text.numeral_iff.2 ⟨hdigits.1, hdigits.2, rfl⟩)
    rw [List.getElem?_eq_none hlong]
    rfl
  · rfl

end Datum

namespace Scope

variable {p q : Text}

/-- All names of a path are steps, the first one into the scope itself. -/
theorem resolve_eq_steps (s : Scope) (hp : p ≠ []) :
    s.resolve p = (p.splitOn '.').foldl Datum.step (.scope s) := by
  obtain ⟨first, rest, hsplit⟩ := List.exists_cons_of_ne_nil (Text.splitOn_ne_nil '.' p)
  rw [resolve, if_neg (by simpa using hp), hsplit]
  rfl

/-- The names of a path that goes on are steps into what its first part finds. -/
theorem resolve_append (s : Scope) (hp : p ≠ []) (q : Text) :
    s.resolve (p ++ ↑ '.' :: q) = (q.splitOn '.').foldl Datum.step (s.resolve p) := by
  rw [resolve_eq_steps s (List.append_ne_nil_of_left_ne_nil hp _), Text.splitOn_append,
    List.foldl_append, ← resolve_eq_steps s hp]

/-- A mapping is stepped into like the scope that it fills: it has no names of a loop. -/
theorem resolve_root (m : Mapping Datum) (hq : q ≠ []) :
    (root m).resolve q = (q.splitOn '.').foldl Datum.step (.mapping m) := by
  obtain ⟨first, rest, hsplit⟩ := List.exists_cons_of_ne_nil (Text.splitOn_ne_nil '.' q)
  rw [resolve_eq_steps _ hq, hsplit]
  rfl

/-- A mapping with a name of a loop and a tuple. -/
def spoofingRecord : Mapping Datum :=
  ⟨[("_index", .str "x"), ("l", .tuple [.int 7, .null])]⟩

/-- A pass of a loop over numbers, within a scope with that mapping. -/
def recordScope : Scope := (root ⟨[("m", .mapping spoofingRecord)]⟩).child (.int 3) 0 1

end Scope
end Stencil
