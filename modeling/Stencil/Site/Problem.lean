import Stencil.Datum.Literal
import Stencil.Files.Tree
import Stencil.Json.Read
import Stencil.Outcome
/-! What can be wrong with the records, files and pages of a site. -/
namespace Stencil

/-- The records of a site that have to be objects. -/
inductive Record where
  | site
  | languages
  | page
  | pageData
  | language (code : Text)
  | nav (code : Text)
  | navApp (code : Text)
deriving DecidableEq

def Record.text : Record → Text
  | .site => "site"
  | .languages => "languages"
  | .page => "page"
  | .pageData => "page data"
  | .language code => "language " ++ code.quoted
  | .nav code => "language " ++ code.quoted ++ " nav"
  | .navApp code => "language " ++ code.quoted ++ " nav app"

/-- What stops the build of a page or of the whole site. -/
inductive BuildError where
  | notAnObject (record : Record) (kind : Text)
  | unknownLanguage (code : Datum)
  | appsNotAList (code : Text)
  | dataMissing (path : FilePath)
  | dataInvalid (path : FilePath) (fault : Json.Fault)
  | dataNotAnObject (path : FilePath)
  | pagesNotAList (path : FilePath)
  | templatesMissing (path : FilePath)

def BuildError.text : BuildError → Text
  | .notAnObject record kind => record.text ++ " must be an object, got " ++ kind
  | .unknownLanguage code => "Unknown language " ++ code.literal
  | .appsNotAList code => "language " ++ code.quoted ++ " nav.apps must be a list"
  | .dataMissing path => "Data file not found: " ++ path.text
  | .dataInvalid path fault =>
    "Data file " ++ path.text ++ " is not valid JSON: " ++ fault.message
  | .dataNotAnObject path => "Data file " ++ path.text ++ " must contain a JSON object"
  | .pagesNotAList path => "Data file " ++ path.text ++ ": \"pages\" must be a list"
  | .templatesMissing path => "Templates directory not found: " ++ path.text

/-- What ends the loading or building of a site without a report. An integer of the data may have too many
digits, and a path or the number of workers may have been asked for without being given. -/
inductive SiteFailure where
  | build (e : BuildError)
  | undecodable (fault : Utf8.Fault)
  | tooManyDigits (limit count : Nat)
  | file (e : FileError)
  | unusable (fault : ValueFault)
  | pathNotGiven
  | workersNotGiven

def SiteFailure.text : SiteFailure → Text
  | .build e => e.text
  | .undecodable fault => fault.message
  | .tooManyDigits limit count => (Json.Failure.tooManyDigits limit count).message
  | .file e => e.message
  | .unusable fault => fault.text
  | .pathNotGiven => "'list' object has no attribute 'is_absolute'"
  | .workersNotGiven => "'>' not supported between instances of 'list' and 'int'"

/-- Why a page is not built. -/
inductive PageProblem where
  | notAnObject (kind : Text)
  | noOutputPath
  | templateMissing (name : Text)
  | build (e : BuildError)
  | render (f : RenderFailure)

def PageProblem.text : PageProblem → Text
  | .notAnObject kind => "page must be an object, got " ++ kind
  | .noOutputPath => "page has no outputPath"
  | .templateMissing name => "template \"" ++ name ++ "\" not found"
  | .build e => e.text
  | .render f => f.text

end Stencil
