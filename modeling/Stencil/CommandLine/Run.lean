import Stencil.CommandLine.Arguments
import Stencil.Site.Build
import Stencil.Text.Lines
/-! The program: arguments and files in, exit status, messages and files out. -/
namespace Stencil.CommandLine

/-- How the program ends: with a word on its usage, with a build that was reported, or with a failure
that no report is made of. -/
inductive Ending where
  | usage (status : Nat) (messages : List Text)
  | finished (status : Nat) (messages : List Text)
  | broken (failure : SiteFailure) (messages : List Text)

/-- How grave a line has to be to be shown. -/
def isShown (verbose : Bool) (line : LogLine) : Bool := verbose || line.level ≠ .debug

/-- The lines that a message takes; it is shown with a line feed after it. -/
def messageLines (message : Text) : List Text := Text.lines (message ++ (['\n'] : Text))

/-- The messages that are shown, one line after the other. -/
def shownLines (verbose : Bool) (logs : List LogLine) : List Text :=
  (logs.filter (isShown verbose)).flatMap fun line => messageLines line.message

/-- The line for a site that cannot be built. -/
def errorLine (e : BuildError) : LogLine := ⟨.error, loggerNamed "__main__", "ERROR: " ++ e.text⟩

/-- The end of the program after a build: 0 if every page was built, otherwise 1. -/
def endingOf (verbose : Bool) (run : BuildRun) : Ending :=
  match run.result with
  | .ok report => .finished (if report.isOk then 0 else 1) (shownLines verbose run.logs)
  | .error (.build e) => .finished 1 (shownLines verbose (run.logs ++ [errorLine e]))
  | .error failure => .broken failure (shownLines verbose run.logs)

/-- The failure of a build that needs a value which was not given, unless it fails before that: the
workers are looked at first, then the data, the templates and the partials. -/
def failureWithout (b : BuildArguments) (t : FileTree) : Option SiteFailure :=
  let data := t.loadData (b.config.root.join b.config.data)
  let templates := t.loadTemplates (b.config.root.join b.config.templates) templateSuffix
  if b.notGiven.contains .workers then some .workersNotGiven
  else if b.notGiven.contains .data then some .pathNotGiven
  else if b.notGiven.contains .templates then
    match data with
    | .error failure => some failure
    | .ok _ => some .pathNotGiven
  else if b.notGiven.contains .partials then
    match data, templates with
    | .error failure, _ | .ok _, .error failure => some failure
    | .ok _, .ok _ => some .pathNotGiven
  else none

/-- The run of a build as its arguments ask for it. -/
def buildRun (b : BuildArguments) (t : FileTree) : BuildRun :=
  match failureWithout b t with
  | some failure => ⟨.error failure, t, []⟩
  | none => b.config.build .default t

/-- Runs the program on a tree of files. -/
def run (arguments : List Text) (t : FileTree) : Ending × FileTree :=
  match parse arguments with
  | .error .help => (.usage 0 [], t)
  | .error (.usage program problem) =>
    (.usage 2 (messageLines (program ++ ": error: " ++ problem.message)), t)
  | .ok b =>
    let built := buildRun b t
    (endingOf b.verbose built, built.tree)

end Stencil.CommandLine
