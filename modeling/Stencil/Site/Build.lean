import Stencil.Site.Load
import Stencil.Site.PageContext
/-! Building a site: every page is rendered, then all are written and reported. -/
namespace Stencil

/-- What became of a page: where it goes, its rendering or the reason why there is none, and what was
logged. -/
structure PageResult where
  path : Text
  result : Except PageProblem Rendering
  logs : List LogLine

/-- The fault of a value that the page could not use. Unlike other problems it is not the page's. -/
def PageResult.fault? (r : PageResult) : Option ValueFault :=
  match r.result with
  | .error (.render (.unusable fault)) => some fault
  | _ => none

/-- The outcome of a build in the order of the pages. -/
structure BuildReport where
  built : List Text
  failed : List (Text × Text)
  warnings : List (Text × Warning)
deriving DecidableEq

namespace BuildReport

def empty : BuildReport := ⟨[], [], []⟩

def isOk (r : BuildReport) : Bool := r.failed.isEmpty

end BuildReport

namespace Site

/-- The template that a page names. -/
def templateFor (s : Site) (page : Mapping Datum) : Option (Text × Text) :=
  match Datum.field page "template" with
  | .str name => (s.templates.get? name).map fun source => (name, source)
  | _ => none

/-- Renders one page; whatever is wrong with it is its own result. -/
def renderPage (s : Site) (settings : Settings) (page : Datum) : PageResult :=
  match page with
  | .mapping record =>
    let path := ((Datum.field record "outputPath").orElse (.str [])).display
    if path.isEmpty then ⟨path, .error .noOutputPath, []⟩
    else match s.templateFor record with
      | none => ⟨path, .error (.templateMissing (Datum.field record "template").display), []⟩
      | some (name, source) =>
        let part (key : Text) := (Datum.field s.data key).orElse (.mapping .empty)
        match PageContext.build (part "site") (part "languages") page with
        | .error e => ⟨path, .error (.build e), []⟩
        | .ok context =>
          let o := renderSource settings s.partials (some (name ++ templateSuffix)) source
            (.mapping context)
          match o.result with
          | .error f => ⟨path, .error (.render f), o.logs⟩
          | .ok r => ⟨path, .ok r, o.logs⟩
  | d => ⟨[], .error (.notAnObject d.kindName), []⟩

/-- Renders pages in order, with what is logged. The first value that a page cannot use ends it. -/
def renderPages (s : Site) (settings : Settings) :
    List Datum → Except ValueFault (List PageResult) × List LogLine
  | [] => (.ok [], [])
  | page :: pages =>
    let r := s.renderPage settings page
    match r.fault? with
    | some fault => (.error fault, r.logs)
    | none =>
      let (results, logs) := s.renderPages settings pages
      (results.map (r :: ·), r.logs ++ logs)

/-- Renders pages side by side. All of them are rendered, and then the first value in their order that
one of them cannot use ends it. The lines of a page are logged in order, but those of other pages may
come between them; here they come page by page. -/
def renderPool (s : Site) (settings : Settings) (pages : List Datum) :
    Except ValueFault (List PageResult) × List LogLine :=
  let results := pages.map (s.renderPage settings)
  (match results.findSome? PageResult.fault? with
    | some fault => .error fault
    | none => .ok results,
  results.flatMap PageResult.logs)

/-- Renders the pages of the site with as many workers as there are. -/
def renderAll (s : Site) (config : SiteConfig) (settings : Settings) :
    Except ValueFault (List PageResult) × List LogLine :=
  if 1 < config.workers then s.renderPool settings s.pages else s.renderPages settings s.pages

end Site

/-- What remains of writing pages: the files, the report and the log so far. -/
structure Progress where
  tree : FileTree
  report : BuildReport
  logs : List LogLine

namespace Progress

/-- A page that was not built. -/
def fail (p : Progress) (path message : Text) : Progress :=
  { p with
    report := { p.report with failed := p.report.failed ++ [(path, message)] }
    logs := p.logs ++ [⟨.error, Site.logger, "  ✗ " ++ path ++ " — " ++ message⟩] }

/-- A page that was built. -/
def succeed (p : Progress) (path : Text) : Progress :=
  { p with
    report := { p.report with built := p.report.built ++ [path] }
    logs := p.logs ++ [⟨.info, Site.logger, "  ✓ " ++ path⟩] }

/-- Writes a page to its place below the root, with the directories above it. -/
def writePage (t : FileTree) (config : SiteConfig) (path html : Text) :
    FileTree × Option FileError :=
  if config.dryRun then (t, none) else t.saveText (config.root.join (.ofText path)) html

/-- Reports one page and writes it if it was rendered. What the file system refuses is a failure of the
page; a path or an output that it cannot even be asked for ends the build. -/
def finishPage (config : SiteConfig) (p : Progress) (page : PageResult) :
    Progress × Option FileError :=
  match page.result with
  | .error problem => (p.fail page.path problem.text, none)
  | .ok r =>
    let warnings := p.report.warnings ++ r.warnings.map fun w => (page.path, w)
    let p := { p with report := { p.report with warnings } }
    match writePage p.tree config page.path r.output with
    | (tree, none) => (({ p with tree }).succeed page.path, none)
    | (tree, some e) =>
      if e.isSystem then (({ p with tree }).fail page.path e.message, none)
      else ({ p with tree }, some e)

/-- Finishes the pages in order. -/
def finishPages (config : SiteConfig) (p : Progress) :
    List PageResult → Progress × Option FileError
  | [] => (p, none)
  | page :: pages =>
    match finishPage config p page with
    | (p, some e) => (p, some e)
    | (p, none) => finishPages config p pages

end Progress

/-- The end of a build: the report or what stopped it, the files and the log. -/
structure BuildRun where
  result : Except SiteFailure BuildReport
  tree : FileTree
  logs : List LogLine

/-- The last line of the log. -/
def BuildReport.summary (r : BuildReport) : LogLine :=
  let errors : Text :=
    if r.failed.isEmpty then [] else " " ++ Text.ofNat r.failed.length ++ " error(s)."
  ⟨.info, Site.logger, "Done! Built " ++ Text.ofNat r.built.length ++ " pages." ++ errors⟩

/-- Builds a loaded site, for which `logs` were written. Everything is rendered before the first page is
written. -/
def Site.build (s : Site) (config : SiteConfig) (settings : Settings) (t : FileTree)
    (logs : List LogLine) : BuildRun :=
  match s.renderAll config settings with
  | (.error fault, lines) => ⟨.error (.unusable fault), t, logs ++ lines⟩
  | (.ok pages, lines) =>
    match Progress.finishPages config ⟨t, .empty, logs ++ lines⟩ pages with
    | (p, some e) => ⟨.error (.file e), p.tree, p.logs⟩
    | (p, none) => ⟨.ok p.report, p.tree, p.logs ++ [p.report.summary]⟩

/-- Builds the site of a configuration. Everything is read before the first page is rendered. -/
def SiteConfig.build (config : SiteConfig) (settings : Settings) (t : FileTree) : BuildRun :=
  match Site.load t config with
  | .error e => ⟨.error e, t, []⟩
  | .ok (site, logs) => site.build config settings t logs

end Stencil
