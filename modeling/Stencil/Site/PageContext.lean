import Stencil.Datum.Same
import Stencil.Site.Problem
/-! The values that a page is rendered with: those of its site and language, the addresses that
follow from them, and its own data. -/
namespace Stencil.PageContext

/-- A record, where null counts as an empty one. -/
def object (record : Record) : Datum → Except BuildError (Mapping Datum)
  | .null => .ok .empty
  | .mapping m => .ok m
  | d => .error (.notAnObject record d.kindName)

/-- A field that counts as empty text if it is left out. -/
def fieldOrEmpty (m : Mapping Datum) (name : Text) : Datum := (Datum.field m name).orElse (.str [])

/-- The language of a page: its code and its record. -/
def pageLanguage (languages page : Mapping Datum) : Except BuildError (Text × Mapping Datum) :=
  match Datum.field page "lang" with
  | .str code => match languages.get? code with
    | none => .error (.unknownLanguage (.str code))
    | some record => (object (.language code) record).map fun language => (code, language)
  | d => .error (.unknownLanguage d)

/-- What a page is called on: the part of its address after the language, and after a slash. -/
def pathPart (path : Datum) : Text := if path.isVoid then [] else path.display ++ "/"

/-- The address of a page in a language. The first page of the default language is the root. -/
def languageUrl (path : Datum) (isDefault : Bool) (base : Datum) : Text :=
  if path.isVoid then if isDefault then "/" else base.display ++ "/"
  else base.display ++ "/" ++ path.display ++ "/"

/-- The entry for a language in the list of all languages. -/
def switcherEntry (siteUrl path : Datum) (current default code : Text) (language : Mapping Datum) :
    Datum :=
  let url := languageUrl path (code = default) (fieldOrEmpty language "prefix")
  .mapping ⟨[("code", .str code), ("name", Datum.field language "name"),
    ("flag", Datum.field language "flag"), ("url", .str url),
    ("fullUrl", .str (siteUrl.display ++ url)), ("isCurrent", .bool (code = current))]⟩

/-- The entries for all languages in order. -/
def switcher (siteUrl path : Datum) (current default : Text) :
    List (Text × Datum) → Except BuildError (List Datum)
  | [] => .ok []
  | (code, record) :: rest =>
    match object (.language code) record with
    | .error e => .error e
    | .ok language => (switcher siteUrl path current default rest).map fun entries =>
      switcherEntry siteUrl path current default code language :: entries

/-- An entry of the navigation with its address, marked if it is that of the page. -/
def navEntry (base slug : Datum) (app : Mapping Datum) : Datum :=
  let own := Datum.field app "slug"
  .mapping ((app.insert "url" (.str (base.display ++ "/" ++ own.display ++ "/"))).insert "isCurrent"
    (.bool (own.same slug)))

/-- The entries of the navigation in order. -/
def navEntries (code : Text) (base slug : Datum) : List Datum → Except BuildError (List Datum)
  | [] => .ok []
  | app :: rest =>
    match object (.navApp code) app with
    | .error e => .error e
    | .ok app => (navEntries code base slug rest).map fun entries => navEntry base slug app :: entries

/-- The apps that a language's navigation names. -/
def apps (code : Text) (language : Mapping Datum) : Except BuildError (List Datum) :=
  match object (.nav code) (Datum.field language "nav") with
  | .error e => .error e
  | .ok nav => match ((Datum.field nav "apps").orElse (.list [])).items? with
    | none => .error (.appsNotAList code)
    | some items => .ok items

/-- The values that follow from the site, the language and the path of a page. -/
def derived (site language : Mapping Datum) (path : Datum) (languageEntries appEntries : List Datum) :
    Mapping Datum :=
  let base := fieldOrEmpty language "prefix"
  let siteUrl := (fieldOrEmpty site "url").display
  let home := base.display ++ "/"
  ⟨[("site", .mapping site), ("lang", .mapping language), ("langPrefix", base),
    ("currency", Datum.field language "currency"), ("langSwitcher", .list languageEntries),
    ("navApps", .list appEntries), ("brandUrl", .str (if base.isVoid then "/" else home)),
    ("footerHomeUrl", .str (home ++ pathPart path)),
    ("canonicalUrl", .str (siteUrl ++ home ++ pathPart path)),
    ("xDefaultUrl", .str (siteUrl ++ "/" ++ pathPart path)),
    ("footer", Datum.field language "footer"), ("cookie", Datum.field language "cookie"),
    ("privacyUrl", .str (home ++ "privacy/"))]⟩

/-- The values for a page of a site. Its own data come last and win. -/
def build (site languages page : Datum) : Except BuildError (Mapping Datum) := do
  let site ← object .site site
  let languages ← object .languages languages
  let page ← object .page page
  let data ← object .pageData (Datum.field page "data")
  let (code, language) ← pageLanguage languages page
  let path := fieldOrEmpty page "path"
  let default := languages.keys.headD []
  let languageEntries ←
    switcher (fieldOrEmpty site "url") path code default languages.entries
  let apps ← apps code language
  let appEntries ←
    navEntries code (fieldOrEmpty language "prefix") (Datum.field page "slug") apps
  return (derived site language path languageEntries appEntries).merge data

end Stencil.PageContext
