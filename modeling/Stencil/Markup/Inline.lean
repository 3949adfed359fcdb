import Stencil.Text
/-! Markup inside a paragraph: bold text between pairs of asterisks, links, and line breaks. Markup
that is not complete on its line stays as it is. -/
namespace Stencil.Markup

/-- What stands before and after the first `mark`, if there is one on the first line. -/
def breakOnLine (mark : Text) : Text → Option (Text × Text)
  | [] => none
  | c :: s =>
    if mark.isPrefixOf (c :: s) then some ([], (c :: s).drop mark.length)
    else if c = '\n' then none
    else (breakOnLine mark s).map fun (before, after) => (c :: before, after)

/-- Like `breakOnLine`, but something has to stand before the mark: the first character is not
looked at. -/
def spanTo (mark : Text) : Text → Option (Text × Text)
  | [] => none
  | c :: s =>
    if c = '\n' then none
    else (breakOnLine mark s).map fun (before, after) => (c :: before, after)

variable {mark s before after : Text}

theorem length_le_of_breakOnLine (h : breakOnLine mark s = some (before, after)) :
    after.length ≤ s.length := by
  induction s generalizing before with
  | nil => simp [breakOnLine] at h
  | cons c s ih =>
    simp only [breakOnLine] at h
    split at h
    · obtain ⟨_, rfl⟩ := by simpa using h
      simp
    · split at h
      · simp at h
      · obtain ⟨⟨x, y⟩, hxy, h⟩ := Option.map_eq_some_iff.1 h
        obtain ⟨_, rfl⟩ := by simpa using h
        exact Nat.le_succ_of_le (ih hxy)

theorem length_lt_of_spanTo (h : spanTo mark s = some (before, after)) :
    after.length < s.length := by
  cases s with
  | nil => simp [spanTo] at h
  | cons c s =>
    simp only [spanTo] at h
    split at h
    · simp at h
    · obtain ⟨⟨x, y⟩, hxy, h⟩ := Option.map_eq_some_iff.1 h
      obtain ⟨_, rfl⟩ := by simpa using h
      exact Nat.lt_succ_of_le (length_le_of_breakOnLine hxy)

def boldMark : Text := "**"

/-- An element around some text. -/
def element (name content : Text) : Text :=
  ↑ '<' :: name ++ ↑ '>' :: content ++ "</" ++ name ++ ">"

/-- Each pair of bold marks on a line becomes an element, from left to right. -/
def bold (s : Text) : Text :=
  match s with
  | [] => []
  | c :: rest =>
    if boldMark.isPrefixOf s then
      match h : spanTo boldMark (rest.drop 1) with
      | some (content, after) =>
        have := length_lt_of_spanTo h
        element "strong" content ++ bold after
      | none => c :: bold rest
    else c :: bold rest
termination_by s.length
decreasing_by all_goals simp only [List.length_drop, List.length_cons] at *; omega

/-- The label and the address of a link whose opening bracket has been read, and what follows. -/
def linkParts? (s : Text) : Option (Text × Text × Text) :=
  match spanTo "](" s with
  | none => none
  | some (label, rest) => (spanTo ")" rest).map fun (url, after) => (label, url, after)

theorem length_lt_of_linkParts? {label url : Text} (h : linkParts? s = some (label, url, after)) :
    after.length < s.length := by
  unfold linkParts? at h
  split at h
  · simp at h
  · next hs =>
    obtain ⟨⟨x, y⟩, hxy, h⟩ := Option.map_eq_some_iff.1 h
    obtain ⟨_, _, rfl⟩ := by simpa using h
    exact Nat.lt_trans (length_lt_of_spanTo hxy) (length_lt_of_spanTo hs)

/-- A link that opens in a new tab. -/
def anchor (label url : Text) : Text :=
  "<a href=\"" ++ url ++ "\" target=\"_blank\" rel=\"noopener\">" ++ label ++ "</a>"

/-- Each label in brackets with an address in parentheses after it becomes a link, from left to
right. -/
def links (s : Text) : Text :=
  match s with
  | [] => []
  | c :: rest =>
    if c = '[' then
      match h : linkParts? rest with
      | some (label, url, after) =>
        have := length_lt_of_linkParts? h
        anchor label url ++ links after
      | none => c :: links rest
    else c :: links rest
termination_by s.length

/-- The text with its bold parts, then its links, then its line feeds converted. -/
def inline (lineBreak s : Text) : Text := (links (bold s)).replace '\n' lineBreak

end Stencil.Markup
