import Stencil.Template.Token
import Stencil.Template.Tree
/-! Blocks: the tree that a list of tokens spells. Blocks may nest to any depth: the stack of calls is
taken to be deep enough. -/
namespace Stencil

/-- The kinds of block. -/
inductive BlockKind where
  | each
  | cond
deriving DecidableEq

namespace BlockKind

/-- The word of the tag that closes a block. -/
def closing : BlockKind → Text
  | .each => Lexeme.eachCloseWord
  | .cond => Lexeme.ifCloseWord

/-- The lexemes that open and close a block. -/
def opener : BlockKind → Text → Lexeme
  | .each => .eachOpen
  | .cond => .ifOpen

def closer : BlockKind → Lexeme
  | .each => .eachClose
  | .cond => .ifClose

end BlockKind

/-- Tokens that are left of a list when some at its front have been read. -/
abbrev Rest (ts : List Token) := {rest : List Token // rest <:+ ts}

namespace Rest

variable {t : Token} {ts : List Token}

def all (ts : List Token) : Rest ts := ⟨ts, List.suffix_rfl⟩

/-- What is left of the rest is left of the whole. -/
def of (rest : Rest ts) (last : Rest rest.1) : Rest ts := ⟨last.1, last.2.trans rest.2⟩

def behind (t : Token) (rest : Rest ts) : Rest (t :: ts) :=
  ⟨rest.1, rest.2.trans (List.suffix_cons t ts)⟩

/-- The first of the tokens that are left, if it is an else, and what is behind it. -/
def divided? (rest : Rest ts) : Option (Token × Rest ts) :=
  match rest with
  | ⟨[], _⟩ => none
  | ⟨t :: more, h⟩ =>
    if t.lexeme = .otherwise then some (t, ⟨more, (List.suffix_cons t more).trans h⟩) else none

end Rest

namespace Node

/-- What is left behind the closing tag of a block. That tag has to come next. -/
def expectClose (kind : BlockKind) (opener : Token) (ts : List Token) :
    Except SyntaxError (Rest ts) :=
  match ts with
  | [] => .error (opener.fault (.unterminatedBlock opener.raw kind.closing))
  | t :: ts =>
    if t.lexeme = kind.closer then .ok ((Rest.all ts).behind t)
    else if t.lexeme = .otherwise then .error (t.fault (.elseInLoop opener.raw))
    else .error (t.fault (.mismatchedClose t.raw kind.closing opener.raw opener.start))

mutual

/-- The nodes up to the end, a closing tag or an else. -/
def parseBody (ts : List Token) : Except SyntaxError (List Node × Rest ts) :=
  match ts with
  | [] => .ok ([], .all [])
  | t :: ts => do
    match ← parseNode t ts with
    | none => return ([], .all (t :: ts))
    | some (n, rest) =>
      let (ns, last) ← parseBody rest.1
      return (n :: ns, (rest.of last).behind t)
termination_by 3 * ts.length
decreasing_by
  · simp only [List.length_cons]; omega
  · have := rest.2.length_le
    simp only [List.length_cons]; omega

/-- The node that a token begins, if it begins one. -/
def parseNode (t : Token) (ts : List Token) : Except SyntaxError (Option (Node × Rest ts)) :=
  match t.lexeme with
  | .leaf l => return some (.leaf t.location l, .all ts)
  | .eachOpen path => return some (← parseEach t path ts)
  | .ifOpen path => return some (← parseIf t path ts)
  | .eachClose | .ifClose | .otherwise | .finish => return none
termination_by 3 * ts.length + 2

/-- A loop, after its opening tag. -/
def parseEach (opener : Token) (path : Text) (ts : List Token) :
    Except SyntaxError (Node × Rest ts) := do
  let (body, rest) ← parseBody ts
  let last ← expectClose .each opener rest.1
  return (.each opener.location path body, rest.of last)
termination_by 3 * ts.length + 1

/-- A condition, after its opening tag. Only an else of its own divides it. -/
def parseIf (opener : Token) (path : Text) (ts : List Token) :
    Except SyntaxError (Node × Rest ts) := do
  let (body, rest) ← parseBody ts
  match rest.divided? with
  | none =>
    let last ← expectClose .cond opener rest.1
    return (.cond opener.location path body none, rest.of last)
  | some (_, rest) =>
    let (elseBody, more) ← parseBody rest.1
    match more.divided? with
    | some (second, _) => throw (second.fault (.duplicateElse opener.raw))
    | none =>
      let last ← expectClose .cond opener more.1
      return (.cond opener.location path body (some elseBody), rest.of (more.of last))
termination_by 3 * ts.length + 1
decreasing_by
  · omega
  · have := rest.2.length_le
    omega

end

/-- The fault of a closing tag or an else in no block. -/
def strayFault (t : Token) : SyntaxError :=
  t.fault (if t.lexeme = .otherwise then .strayElse else .strayClose t.raw)

/-- The nodes that the tokens of a source spell. -/
def ofTokens (ts : List Token) : Except SyntaxError (List Node) := do
  let (nodes, rest) ← parseBody ts
  match rest.1 with
  | [] => return nodes
  | t :: _ => throw (strayFault t)

end Node

/-- The template that a source spells. A fault in a tag anywhere is reported before one in the
blocks. -/
def Template.parse (file : Option Text) (source : Text) : Except SyntaxError Template :=
  let scan := Scan.ofSource file source
  match scan.ending with
  | .error e => .error e
  | .ok last => match Node.ofTokens scan.tokens with
    | .error e => .error e
    | .ok nodes => .ok ⟨file, (scan.tokens.head?.getD last).location, nodes⟩

end Stencil
