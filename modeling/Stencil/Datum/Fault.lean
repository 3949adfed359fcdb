import Stencil.Datum
/-! Why a render cannot use a value. -/
namespace Stencil

/-- Why a value cannot be used: a setting is of the wrong kind, the limit lets inclusions nest until
the stack is spent, the indentation is wider than any text, or data to be printed hold something
absent, which JSON has no form for. -/
inductive ValueFault where
  | limit (kind : Text)
  | unlimited
  | indent (kind : Text)
  | indentTooWide
  | lineBreak (kind : Text)
  | absentInside
deriving DecidableEq

def ValueFault.text : ValueFault → Text
  | .limit kind => "'>=' not supported between instances of 'int' and '" ++ kind ++ "'"
  | .unlimited => "maximum recursion depth exceeded"
  | .indent kind => "can't multiply sequence by non-int of type '" ++ kind ++ "'"
  | .indentTooWide => "cannot fit 'int' into an index-sized integer"
  | .lineBreak kind => "replace() argument 2 must be str, not " ++ kind
  | .absentInside => "Object of type " ++ Datum.absent.kindName ++ " is not JSON serializable"

end Stencil
