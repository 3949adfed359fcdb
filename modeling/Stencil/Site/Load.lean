import Stencil.Site.Problem
/-! Reading the data, templates and partials of a site. -/
namespace Stencil

/-- Where a site is and how it is built. Paths other than the root's are seen from the root. More than one
worker render pages side by side. With a dry run nothing is written. -/
structure SiteConfig where
  root : FilePath := .ofText "."
  templates : FilePath := .ofText "templates"
  partials : FilePath := .ofText "templates/partials"
  data : FilePath := .ofText "data.json"
  workers : Int := 1
  dryRun : Bool := false

/-- A loaded site. -/
structure Site where
  data : Mapping Datum
  templates : Mapping Text
  partials : Partials

/-- The suffix of template files. -/
def templateSuffix : Text := ".html"

/-- The pages of a site's data. -/
def Site.pagesOf (data : Mapping Datum) : Datum := (Datum.field data "pages").orElse (.list [])

def Site.pages (s : Site) : List Datum := (Site.pagesOf s.data).items?.getD []

namespace FileTree

/-- The data of a site, which must be an object whose pages, if there are any, are a list. -/
def loadData (t : FileTree) (path : FilePath) : Except SiteFailure (Mapping Datum) :=
  match t.lookup path with
  | .error e => .error (.file e)
  | .ok (some (.file content)) =>
    match readText content with
    | .error fault => .error (.undecodable fault)
    | .ok text => match Json.read (some Text.digitLimit) text with
      | .error (.malformed fault) => .error (.build (.dataInvalid path fault))
      | .error (.tooManyDigits limit count) => .error (.tooManyDigits limit count)
      | .ok (.mapping data) => match Site.pagesOf data with
        | .list _ => .ok data
        | _ => .error (.build (.pagesNotAList path))
      | .ok _ => .error (.build (.dataNotAnObject path))
  | .ok _ => .error (.build (.dataMissing path))

/-- The texts of those files of a directory that are regular and have a suffix, under their names
without it. Every name is looked up, also one without the suffix. -/
def readSources (t : FileTree) (directory : FilePath) (suffix : Text) :
    List Text → Except SiteFailure (List (Text × Text))
  | [] => .ok []
  | name :: names =>
    match t.lookup (directory.child name) with
    | .error e => .error (.file e)
    | .ok (some (.file content)) =>
      if FilePath.suffix name = suffix then
        match readText content with
        | .error fault => .error (.undecodable fault)
        | .ok text => (t.readSources directory suffix names).map fun sources =>
          (FilePath.stem name, text) :: sources
      else t.readSources directory suffix names
    | .ok _ => t.readSources directory suffix names

/-- The sources in a directory in order of their file names, or nothing if it is none. -/
def loadSources (t : FileTree) (path : FilePath) (suffix : Text) :
    Except SiteFailure (Option (List (Text × Text))) :=
  match t.lookup path with
  | .error e => .error (.file e)
  | .ok (some .directory) => match t.locate path with
    | .ok p => (t.readSources path suffix ((t.list p).map Prod.fst)).map some
    | .error _ => .ok none
  | .ok _ => .ok none

/-- The templates in a directory, which has to be there. -/
def loadTemplates (t : FileTree) (path : FilePath) (suffix : Text) :
    Except SiteFailure (Mapping Text) :=
  match t.loadSources path suffix with
  | .error e => .error e
  | .ok none => .error (.build (.templatesMissing path))
  | .ok (some sources) => .ok (Mapping.ofList sources)

/-- Registers sources in order. -/
def registerAll (p : Partials) : List (Text × Text) → Partials × List LogLine
  | [] => (p, [])
  | (name, source) :: rest =>
    let (p, first) := p.register name source
    let (p, others) := registerAll p rest
    (p, first ++ others)

/-- The partials in a directory; one that is not there holds none, which is logged. -/
def loadPartials (t : FileTree) (path : FilePath) (suffix : Text) :
    Except SiteFailure (Partials × List LogLine) :=
  match t.loadSources path suffix with
  | .error e => .error e
  | .ok none =>
    .ok (.empty, [⟨.debug, loggerNamed "partials", "No partials directory at " ++ path.text⟩])
  | .ok (some sources) => .ok (registerAll .empty sources)

end FileTree

namespace Site

def logger : Text := loggerNamed "site"

/-- A list of names for the log. -/
def nameList (names : List Text) : Text :=
  let shown := Text.join ", " names
  if shown.isEmpty then "(none)" else shown

/-- The lines that are logged for a loaded site. -/
def summary (s : Site) : List LogLine :=
  [⟨.info, logger, "Templates: " ++ nameList s.templates.keys⟩,
    ⟨.info, logger, "Partials:  " ++ nameList s.partials.keys⟩,
    ⟨.info, logger, "Pages:     " ++ Text.ofNat s.pages.length⟩]

/-- The site of a configuration, with what is logged for it. Data come first, then templates, then
partials. -/
def load (t : FileTree) (config : SiteConfig) : Except SiteFailure (Site × List LogLine) := do
  let data ← t.loadData (config.root.join config.data)
  let templates ← t.loadTemplates (config.root.join config.templates) templateSuffix
  let (partials, logs) ← t.loadPartials (config.root.join config.partials) templateSuffix
  let site : Site := ⟨data, templates, partials⟩
  return (site, logs ++ site.summary)

end Site
end Stencil
