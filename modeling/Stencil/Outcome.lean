import Stencil.Render
/-! What a render yields: its output and warnings or a failure, and its log lines. -/
namespace Stencil

/-- An inclusion of a partial that is not registered, and where it stands. -/
structure Warning where
  name : Text
  location : Location
deriving DecidableEq

namespace Warning

def kind : Text := "missing-partial"

def message (w : Warning) : Text := "Partial " ++ w.name.quoted ++ " not found"

/-- The message with its place. -/
def text (w : Warning) : Text := w.location.text ++ " " ++ w.message

end Warning

namespace Event

def output : Event → Text
  | .wrote text => text
  | _ => []

def warning? : Event → Option Warning
  | .missing name location => some ⟨name, location⟩
  | _ => none

/-- The line that an event leaves in the log. A missing partial leaves one only if the settings ask
for it. -/
def logLine? (settings : Settings) : Event → Option LogLine
  | .wrote _ => none
  | .missing name location =>
    if !settings.logsMissing.isVoid then
      some ⟨.warning, loggerNamed "renderer",
        Warning.message ⟨name, location⟩ ++ " (" ++ location.text ++ ")"⟩
    else none
  | .empty name location =>
    some ⟨.debug, loggerNamed "renderer",
      "Partial " ++ name.quoted ++ " is empty (" ++ location.text ++ ")"⟩

end Event

namespace Trace

def output (t : Trace) : Text := t.events.flatMap Event.output

def warnings (t : Trace) : List Warning := t.events.filterMap Event.warning?

def logs (settings : Settings) (t : Trace) : List LogLine :=
  t.events.filterMap (Event.logLine? settings)

end Trace

/-- A finished page. -/
structure Rendering where
  output : Text
  warnings : List Warning
deriving DecidableEq

/-- What a render yields. A failure leaves no output and no warnings, but the log lines before it. -/
structure Outcome where
  result : Except RenderFailure Rendering
  logs : List LogLine

namespace Outcome

def ofTrace (settings : Settings) (t : Trace) : Outcome :=
  ⟨match t.failure with
    | some f => .error f
    | none => .ok ⟨t.output, t.warnings⟩,
   t.logs settings⟩

end Outcome

/-- Renders a parsed template in the scope that a value opens. -/
def Template.render (t : Template) (settings : Settings) (partials : Partials) (context : Datum) :
    Outcome :=
  .ofTrace settings (Render.run settings partials t.nodes (Scope.ofDatum context))

/-- Renders a source whose name is `file`. -/
def renderSource (settings : Settings) (partials : Partials) (file : Option Text) (source : Text)
    (context : Datum) : Outcome :=
  match Template.parse file source with
  | .error e => ⟨.error (.malformed e), []⟩
  | .ok t => t.render settings partials context

end Stencil
