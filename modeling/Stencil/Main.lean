import Stencil.CommandLine.Run
/-! The program on the files of a machine: the files that a build looks at are read into a tree, the
program runs on the tree, and what it changed there is written back. -/
namespace Stencil.Main

/-- A text as it is shown: surrogates, which have no shape, are written by number. -/
def shown (s : Text) : String :=
  String.join (s.map fun c => match c with
    | .scalar c => c.toString
    | .surrogate _ => "\\u" ++ String.ofList (Nat.toDigits 16 c.toNat))

def nameOf (p : Place) : String := shown ("/" ++ Text.join "/" p)

/-- Adds what stands at a place, if anything does. -/
def readEntry (t : FileTree) (p : Place) : IO FileTree := do
  if (t.entry? p).isSome then return t
  try
    let path ← IO.FS.realPath (nameOf p)
    if ← path.isDir then return t.put p .directory
    if ← path.pathExists then return t.put p (.file (← IO.FS.readBinFile path).toList)
    return t
  catch _ => return t

/-- Adds what stands at the places that a path leads through, and answers the last of them. -/
def readAlong (t : FileTree) (path : FilePath) : IO (FileTree × Place) := do
  let mut t := t
  let mut p := if path.isAbsolute then [] else t.home
  for name in path.names do
    p := if name = FileTree.parentName then p.dropLast else p ++ [name]
    t ← readEntry t p
  return (t, p)

/-- Adds a directory and what stands in it. -/
def readDirectory (t : FileTree) (path : FilePath) : IO FileTree := do
  let (t, p) ← readAlong t path
  if t.isDirectoryAt p then
    let mut t := t
    for entry in ← (← IO.FS.realPath (nameOf p)).readDir do
      t ← readEntry t (p ++ [↑entry.fileName])
    return t
  return t

/-- The files that a build looks at: its sources, and what stands where its pages go. -/
def readTree (config : SiteConfig) : IO FileTree := do
  let here := FilePath.ofText (← IO.currentDir).toString
  let (t, _) ← readAlong ⟨here.names, []⟩ here
  let (t, _) ← readAlong t (config.root.join config.data)
  let t ← readDirectory t (config.root.join config.templates)
  let mut t ← readDirectory t (config.root.join config.partials)
  match ({ config with dryRun := true }.build .default t).result with
  | .error _ => return t
  | .ok report =>
    for path in report.built do
      t := (← readAlong t (config.root.join (.ofText path))).1
    return t

/-- Writes what is in `new` and is not the same in `old`. -/
def writeChanges (old new : FileTree) : IO Unit := do
  for (place, entry) in new.entries do
    unless old.entry? place = some entry do
      match entry with
      | .directory => IO.FS.createDirAll (nameOf place)
      | .file content => IO.FS.writeBinFile (nameOf place) content.toByteArray

/-- Runs the program, shows its messages and answers its exit status. -/
def run (arguments : List Text) : IO UInt32 := do
  let old ← match CommandLine.parse arguments with
    | .ok b => readTree b.config
    | .error _ => pure ⟨[], []⟩
  let (ending, new) := CommandLine.run arguments old
  writeChanges old new
  let (status, messages) := match ending with
    | .usage status messages | .finished status messages => (status, messages)
    | .broken failure messages => (1, messages ++ [failure.text])
  for message in messages do
    IO.eprintln (shown message)
  return UInt32.ofNat status

end Stencil.Main

/-- Builds the site that the arguments name. -/
def main (args : List String) : IO UInt32 := Stencil.Main.run (args.map fun (arg : String) => arg)
