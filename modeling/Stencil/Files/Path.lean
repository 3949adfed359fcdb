import Stencil.Text.Utf8
/-! Paths of files, as they are written and compared. -/
namespace Stencil

/-- A path: whether it starts at the root, and its names. Empty names and those of the directory
itself are left out; a name that leads to the directory above is kept. -/
structure FilePath where
  anchor : Text
  names : List Text
deriving DecidableEq

namespace FilePath

/-- The slashes that a path starts with: one, or exactly two. -/
def anchorOf : Text → Text
  | '/' :: '/' :: '/' :: _ => "/"
  | '/' :: '/' :: _ => "//"
  | '/' :: _ => "/"
  | _ => []

def isName (s : Text) : Bool := !s.isEmpty && s != "."

/-- The path that a text spells. -/
def ofText (s : Text) : FilePath := ⟨anchorOf s, (s.splitOn '/').filter isName⟩

def isAbsolute (p : FilePath) : Bool := !p.anchor.isEmpty

/-- The path as it is written; one without names is that of the directory itself. -/
def text (p : FilePath) : Text :=
  let s := p.anchor ++ Text.join "/" p.names
  if s.isEmpty then "." else s

/-- The path `q` seen from the directory `p`; an absolute path stays as it is. -/
def join (p q : FilePath) : FilePath :=
  if q.isAbsolute then q else ⟨p.anchor, p.names ++ q.names⟩

/-- The path of an entry of the directory `p`. -/
def child (p : FilePath) (name : Text) : FilePath := { p with names := p.names ++ [name] }

/-- The path without its last name. -/
def parent (p : FilePath) : FilePath := { p with names := p.names.dropLast }

/-- Why a path is refused before it is looked at: it has a NUL character, or surrogates that stand for
no bytes. The latter are seen first. -/
inductive Fault where
  | nul
  | unencodable (fault : Utf8.EncodeFault)
deriving DecidableEq

def fault? (p : FilePath) : Option Fault :=
  match Utf8.nameFault? p.text with
  | some fault => some (.unencodable fault)
  | none => if p.text.contains '\x00' then some .nul else none

/-- A name as it is spelled in the directory that has it. Names are told apart by their bytes, and
surrogates that stand for the bytes of a character are another spelling of that character. -/
def spelled (name : Text) : Text :=
  if name.any CodePoint.isSurrogate then Utf8.decodeName (Utf8.bytes name) else name

/-- The names of a path as directories spell them. -/
def entryNames (p : FilePath) : List Text := p.names.map spelled

/-- A file name split before its last point, unless that is its first or last character. -/
def splitName (name : Text) : Text × Text :=
  match Text.splitWhile (· ≠ '.') name.reverse with
  | (tail, point :: stem) =>
    if tail.isEmpty || stem.isEmpty then (name, []) else (stem.reverse, point :: tail.reverse)
  | (_, []) => (name, [])

/-- A file name without its suffix. -/
def stem (name : Text) : Text := (splitName name).1

/-- The part of a file name from its last point on. -/
def suffix (name : Text) : Text := (splitName name).2

/-- A file name is its stem and its suffix. -/
theorem stem_append_suffix (name : Text) : stem name ++ suffix name = name := by
  unfold stem suffix splitName
  split
  · next tail point rest h =>
    split
    · simp
    · rw [← List.reverse_reverse name, ← Text.append_of_splitWhile h]
      simp
  · simp

end FilePath
end Stencil
