import Stencil.Datum.Literal
import Stencil.Log
/-! The named sources that templates may include. -/
namespace Stencil

/-- The sources of partial templates by name. -/
abbrev Partials := Mapping Text

namespace Partials

/-- The registered names in order. -/
def display (p : Partials) : Text :=
  "PartialRegistry(" ++ quotedList (Text.sort p.keys) ++ ")"

/-- Registers a source; one that has the name already is replaced, which is logged. -/
def register (p : Partials) (name source : Text) : Partials × List LogLine :=
  let line : LogLine := ⟨.debug, loggerNamed "partials",
    "Partial " ++ name.quoted ++ " registered twice; keeping the later source"⟩
  (p.insert name source, if p.contains name then [line] else [])

end Partials
end Stencil
