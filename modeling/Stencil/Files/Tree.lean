import Stencil.Files.Path
import Stencil.Text.Lines
import Stencil.Text.Quoted
/-! A tree of files in memory, with the rules of a POSIX file system for looking up, creating and
writing. -/
namespace Stencil

/-- The contents of files. -/
abbrev Bytes := List UInt8

/-- A place in the tree: the names from the root down to it, as their directories spell them. -/
abbrev Place := List Text

/-- What stands at a place. -/
inductive Entry where
  | directory
  | file (content : Bytes)
deriving DecidableEq

/-- A tree of files: the place that relative paths start from, and the entries by place. The root is
always a directory. -/
structure FileTree where
  home : Place
  entries : List (Place × Entry)

/-- Why an operation on files fails. -/
inductive FileProblem where
  | notFound
  | exists
  | notDirectory
  | isDirectory
  | nameTooLong
deriving DecidableEq

namespace FileProblem

def number : FileProblem → Nat
  | .notFound => 2
  | .exists => 17
  | .notDirectory => 20
  | .isDirectory => 21
  | .nameTooLong => 36

def description : FileProblem → Text
  | .notFound => "No such file or directory"
  | .exists => "File exists"
  | .notDirectory => "Not a directory"
  | .isDirectory => "Is a directory"
  | .nameTooLong => "File name too long"

end FileProblem

/-- A failed operation: the system refuses it, the path cannot be one, or the text to be written has no
bytes. -/
inductive FileError where
  | system (problem : FileProblem) (place : Text)
  | path (fault : FilePath.Fault)
  | content (fault : Utf8.EncodeFault)
deriving DecidableEq

namespace FileError

def message : FileError → Text
  | .system problem place =>
    "[Errno " ++ Text.ofNat problem.number ++ "] " ++ problem.description ++ ": " ++ place.quoted
  | .path .nul => "embedded null byte"
  | .path (.unencodable fault) | .content fault => fault.message

/-- Whether the system has refused the operation. -/
def isSystem : FileError → Bool
  | .system _ _ => true
  | .path _ | .content _ => false

end FileError

namespace FileTree

/-- The greatest number of bytes in a name, and in a path with its end mark. -/
def nameLimit : Nat := 255
def pathLimit : Nat := 4096

def parentName : Text := ".."

/-- The entry at a place. -/
def entry? (t : FileTree) (p : Place) : Option Entry :=
  if p.isEmpty then some .directory
  else (t.entries.find? fun e => e.1 = p).map Prod.snd

def isDirectoryAt (t : FileTree) (p : Place) : Bool := t.entry? p = some .directory

/-- The place that some names lead to. All places on the way have to be directories, the last one
need not exist. -/
def walk (t : FileTree) (p : Place) : List Text → Except FileProblem Place
  | [] => .ok p
  | name :: names =>
    match t.entry? p with
    | none => .error .notFound
    | some (.file _) => .error .notDirectory
    | some .directory =>
      if nameLimit < name.utf8Length then .error .nameTooLong
      else t.walk (if name = parentName then p.dropLast else p ++ [name]) names

/-- The place of a path. -/
def locate (t : FileTree) (path : FilePath) : Except FileProblem Place :=
  if pathLimit ≤ path.text.utf8Length then .error .nameTooLong
  else t.walk (if path.isAbsolute then [] else t.home) path.entryNames

/-- The entry at the end of a path. A place that cannot be reached has none, and neither has what can be
no path; a name that is too long is reported. -/
def lookup (t : FileTree) (path : FilePath) : Except FileError (Option Entry) :=
  if path.fault?.isSome then .ok none
  else match t.locate path with
    | .ok p => .ok (t.entry? p)
    | .error .nameTooLong => .error (.system .nameTooLong path.text)
    | .error _ => .ok none

/-- An entry put at a place, instead of the one that is there. -/
def put (t : FileTree) (p : Place) (e : Entry) : FileTree :=
  { t with entries :=
      if t.entries.any fun old => old.1 = p then
        t.entries.map fun old => if old.1 = p then (p, e) else old
      else t.entries ++ [(p, e)] }

/-- An entry with its name in the directory `p`, if it stands there. -/
def childOf (p : Place) (entry : Place × Entry) : Option (Text × Entry) :=
  match entry.1.getLast? with
  | some name => if entry.1.dropLast = p then some (name, entry.2) else none
  | none => none

/-- The names in a directory with their entries, in order of their code points. -/
def list (t : FileTree) (p : Place) : List (Text × Entry) :=
  (t.entries.filterMap (childOf p)).mergeSort fun a b => Text.le a.1 b.1

/-- Makes one directory, in one that exists. A directory that is there already is accepted. -/
def makeOne (t : FileTree) (path : FilePath) : FileTree × Option FileError :=
  let failed (problem : FileProblem) := (t, some (.system problem path.text))
  match path.fault? with
  | some fault => (t, some (.path fault))
  | none => match t.locate path with
    | .error problem => failed problem
    | .ok p =>
      match t.entry? p with
      | none => (t.put p .directory, none)
      | some .directory => (t, none)
      | some (.file _) => failed .exists

/-- Makes the directory with the given names, last name first. Where the one above it is missing,
that is made before it; what was made before a failure stays. -/
def makeFrom (t : FileTree) (anchor : Text) : List Text → FileTree × Option FileError
  | [] => t.makeOne ⟨anchor, []⟩
  | name :: above =>
    let path : FilePath := ⟨anchor, (name :: above).reverse⟩
    match t.makeOne path with
    | (t, some (.system .notFound _)) =>
      match t.makeFrom anchor above with
      | (t, none) => t.makeOne path
      | failed => failed
    | result => result

/-- Makes a directory with all that are missing above it. -/
def makeDirectories (t : FileTree) (path : FilePath) : FileTree × Option FileError :=
  t.makeFrom path.anchor path.names.reverse

/-- Writes a file in a directory that exists, instead of the one that may be there. -/
def writeFile (t : FileTree) (path : FilePath) (content : Bytes) : FileTree × Option FileError :=
  let failed (problem : FileProblem) := (t, some (.system problem path.text))
  match path.fault? with
  | some fault => (t, some (.path fault))
  | none => match t.locate path with
    | .error problem => failed problem
    | .ok p =>
      match t.entry? p with
      | some .directory => failed .isDirectory
      | _ => (t.put p (.file content), none)

/-- Writes a file after the directories above it are made. -/
def saveFile (t : FileTree) (path : FilePath) (content : Bytes) : FileTree × Option FileError :=
  match t.makeDirectories path.parent with
  | (t, none) => t.writeFile path content
  | failed => failed

/-- Writes a text to such a file. The file is there and empty before a text that has no bytes is
refused. -/
def saveText (t : FileTree) (path : FilePath) (text : Text) : FileTree × Option FileError :=
  match Utf8.encode text with
  | .ok content => t.saveFile path content
  | .error fault =>
    match t.saveFile path [] with
    | (t, none) => (t, some (.content fault))
    | failed => failed

/-- The regular files below a place: their names from there, and their contents. -/
def filesBelow (t : FileTree) (p : Place) : List (Place × Bytes) :=
  t.entries.filterMap fun (place, e) =>
    match e with
    | .file content => if p.isPrefixOf place then some (place.drop p.length, content) else none
    | .directory => none

/-- The regular files below the home of `new` that are not the same in `old`, by their paths from
there and in order. -/
def changes (old new : FileTree) : List (Text × Bytes) :=
  let changed := (new.filesBelow new.home).filter fun (names, content) =>
    old.entry? (new.home ++ names) != some (.file content)
  (changed.map fun (names, content) => (Text.join "/" names, content)).mergeSort
    fun a b => Text.le a.1 b.1

end FileTree

/-- The text of a file: UTF-8, with line feeds as line ends. -/
def readText (content : Bytes) : Except Utf8.Fault Text :=
  (Utf8.decode content).map Text.normalizeNewlines

end Stencil
