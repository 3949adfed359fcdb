import Stencil.Outcome
/-! Sessions: partials are registered, renderers made from them, and templates rendered while the
settings change. -/
namespace Stencil

/-- What a session remembers: the partials being collected, those of the current renderer, the
templates kept, the settings in force and those to return to, and the warnings of the renderer's
last success. -/
structure Session where
  collected : Partials
  partials : Partials
  templates : List Template
  settings : Settings
  suspended : List Settings
  lastWarnings : List Warning

/-- The source of a render: a text, with the name it goes by, or a template kept before. -/
inductive RenderInput where
  | source (file : Option Text) (source : Text)
  | kept (number : Nat)

/-- A text by itself is a source without a name. -/
instance : Coe Text RenderInput := ⟨.source none⟩

/-- The steps of a session. -/
inductive Step where
  | register (name source : Text)
  | newCollection
  | newRenderer
  | inspect (keys : List Text)
  | parse (file : Option Text) (source : Text)
  | render (input : RenderInput) (context : Datum)
  /-- Like `render`, but in a thread of its own, which starts with the default settings. -/
  | renderApart (input : RenderInput) (context : Datum)
  | warnings
  | markup (text : Datum)
  | setSettings (settings : Settings)
  | resetSettings
  | getSettings
  | enterSettings (settings : Settings)
  | exitSettings

/-- The partials of a renderer as they can be seen from outside. -/
structure PartialsView where
  names : List Text
  order : List Text
  sources : List (Option Text)
  display : Text

/-- What a step answers. -/
inductive Reply where
  | done
  | number (n : Nat)
  | text (s : Text)
  | partials (view : PartialsView)
  | warnings (ws : List Warning)
  | markup (inline block : Text)
  | settings (s : Settings)
  | failed (f : RenderFailure)

/-- The text that a value is, if it is one. -/
def Datum.asText : Datum → Text
  | .str s => s
  | _ => []

/-- A value with its markup converted in both ways. -/
def Reply.ofMarkup (settings : Settings) (text : Datum) : Reply :=
  match Render.inlineMarkup settings text.asText, Render.blockMarkup settings text.asText with
  | .ok inline, .ok block => .markup inline block
  | .error fault, _ | _, .error fault => .failed (.unusable fault)

namespace Session

/-- A session begins without partials and with the default settings. -/
def start : Session := ⟨.empty, .empty, [], .default, [], []⟩

/-- The outcome of a render with the current renderer under some settings. A template that was not
kept counts as an empty one. -/
def outcome (s : Session) (settings : Settings) (input : RenderInput) (context : Datum) : Outcome :=
  match input with
  | .source file source => renderSource settings s.partials file source context
  | .kept number => match s.templates[number]? with
    | some t => t.render settings s.partials context
    | none => ⟨.ok ⟨[], []⟩, []⟩

/-- A success leaves its warnings; a failure leaves the session as it was. -/
def afterRender (s : Session) (o : Outcome) : Session × Reply × List LogLine :=
  match o.result with
  | .ok r => ({ s with lastWarnings := r.warnings }, .text r.output, o.logs)
  | .error f => (s, .failed f, o.logs)

/-- The settings change and are answered. -/
def withSettings (s : Session) (settings : Settings) : Session × Reply × List LogLine :=
  ({ s with settings }, .settings settings, [])

/-- One step: the session after it, its answer and its log lines. -/
def step (s : Session) : Step → Session × Reply × List LogLine
  | .register name source =>
    let (collected, logs) := s.collected.register name source
    ({ s with collected }, .number collected.keys.length, logs)
  | .newCollection => ({ s with collected := .empty }, .done, [])
  | .newRenderer =>
    ({ s with partials := s.collected, lastWarnings := [] }, .text s.collected.display, [])
  | .inspect keys =>
    let p := s.partials
    (s, .partials ⟨Text.sort p.keys, p.keys, keys.map p.get?, p.display⟩, [])
  | .parse file source =>
    match Template.parse file source with
    | .error e => (s, .failed (.malformed e), [])
    | .ok t => ({ s with templates := s.templates ++ [t] }, .number s.templates.length, [])
  | .render input context => s.afterRender (s.outcome s.settings input context)
  | .renderApart input context => s.afterRender (s.outcome .default input context)
  | .warnings => (s, .warnings s.lastWarnings, [])
  | .markup text => (s, Reply.ofMarkup s.settings text, [])
  | .setSettings settings => s.withSettings settings
  | .resetSettings => s.withSettings .default
  | .getSettings => s.withSettings s.settings
  | .enterSettings settings =>
    ({ s with suspended := s.settings :: s.suspended }).withSettings settings
  | .exitSettings =>
    match s.suspended with
    | [] => s.withSettings s.settings
    | settings :: suspended => ({ s with suspended }).withSettings settings

/-- The answers of some steps in order. -/
def run (s : Session) : List Step → List (Reply × List LogLine)
  | [] => []
  | x :: xs =>
    let (s, reply) := s.step x
    reply :: run s xs

end Session
end Stencil
