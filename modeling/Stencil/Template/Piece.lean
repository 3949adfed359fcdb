import Stencil.Text.Pair
import Stencil.Template.Lexeme
/-! The division of a source into text and tags. -/
namespace Stencil

/-- A stretch of a source: text, a tag with what stands between its braces, or two opening braces
that are never closed with what follows them. -/
inductive Piece where
  | text (content : Text)
  | tag (content : Text)
  | unclosed (rest : Text)
deriving DecidableEq

namespace Piece

/-- A piece as it stands in the source. -/
def raw : Piece → Text
  | .text content => content
  | .tag content => tagOf content
  | .unclosed rest => openBraces ++ rest

/-- Text in front of other pieces; empty text is no piece. -/
def consText (content : Text) (pieces : List Piece) : List Piece :=
  if content.isEmpty then pieces else .text content :: pieces

/-- The pieces of a source. A tag begins at the first two opening braces and ends at the first two
closing ones after them. -/
def divide (source : Text) : List Piece :=
  match h : source.breakPair '\x7b' with
  | none => consText source []
  | some (before, rest) =>
    match h' : rest.breakPair '\x7d' with
    | none => consText before [.unclosed rest]
    | some (content, after) =>
      have := Text.length_lt_of_breakPair h
      have := Text.length_lt_of_breakPair h'
      consText before (.tag content :: divide after)
termination_by source.length

theorem raw_consText (content : Text) (pieces : List Piece) :
    (consText content pieces).flatMap raw = content ++ pieces.flatMap raw := by
  unfold consText
  split
  · next h => rw [List.isEmpty_iff.1 h, List.nil_append]
  · rfl

/-- The pieces in order are the whole source. -/
theorem flatMap_raw_divide (source : Text) : (divide source).flatMap raw = source := by
  fun_induction divide source with
  | case1 source h => simp [raw_consText]
  | case2 source before rest h h' =>
    conv => rhs; rw [Text.eq_of_breakPair h]
    simp [raw_consText, raw, openBraces]
  | case3 source before rest h content after h' _ _ ih =>
    conv => rhs; rw [Text.eq_of_breakPair h, Text.eq_of_breakPair h']
    simp [raw_consText, raw, ih, tagOf, openBraces, closeBraces]

end Piece
end Stencil
