import Stencil.Text
/-! Log lines. -/
namespace Stencil

inductive LogLevel where
  | debug
  | info
  | warning
  | error
deriving DecidableEq

def LogLevel.name : LogLevel → Text
  | .debug => "DEBUG"
  | .info => "INFO"
  | .warning => "WARNING"
  | .error => "ERROR"

/-- A line of the log: how grave it is, the part of the program that wrote it, and what it says. -/
structure LogLine where
  level : LogLevel
  logger : Text
  message : Text
deriving DecidableEq

/-- The name that all loggers share. -/
def rootLogger : Text := "plantilla"

/-- The logger of a part of the program: its name below the shared one, which is not repeated. -/
def loggerNamed (name : Text) : Text :=
  if name = rootLogger || (rootLogger ++ ".").isPrefixOf name then name
  else rootLogger ++ "." ++ name

end Stencil
