import Stencil.Datum.Print
import Stencil.Markup.Block
import Stencil.Partials
import Stencil.Settings
import Stencil.Template.Parse
/-! Rendering: what a template writes in a scope, and what happens on the way. -/
namespace Stencil

/-- What happens in a render: text is written, or an inclusion is skipped because its partial is not
registered or has an empty source. -/
inductive Event where
  | wrote (text : Text)
  | missing (name : Text) (location : Location)
  | empty (name : Text) (location : Location)
deriving DecidableEq

/-- What ends a render: a fault in a template, an inclusion that nests too deep, or a value that cannot
be used. -/
inductive RenderFailure where
  | malformed (e : SyntaxError)
  | tooDeep (name : Text) (location : Location) (limit : Limit)
  | unusable (fault : ValueFault)
deriving DecidableEq

def RenderFailure.text : RenderFailure → Text
  | .malformed e => e.text
  | .tooDeep name location limit =>
    "Partial " ++ name.quoted ++ " at " ++ location.text ++
      " exceeds the maximum inclusion depth of " ++ limit.text
  | .unusable fault => fault.text

/-- The course of a render: its events in order, and the failure that ended it, if one did. -/
structure Trace where
  events : List Event
  failure : Option RenderFailure
deriving DecidableEq

namespace Trace

def empty : Trace := ⟨[], none⟩

def ofEvent (e : Event) : Trace := ⟨[e], none⟩

def fail (f : RenderFailure) : Trace := ⟨[], some f⟩

/-- The text written, if there is any. -/
def wrote (text : Text) : Trace := if text.isEmpty then empty else ofEvent (.wrote text)

/-- The text written, unless a value that it takes cannot be used. -/
def attempt : Except ValueFault Text → Trace
  | .ok text => wrote text
  | .error fault => fail (.unusable fault)

/-- One course after the other; nothing follows a failure. -/
def append (a b : Trace) : Trace :=
  match a.failure with
  | some _ => a
  | none => ⟨a.events ++ b.events, b.failure⟩

instance : Append Trace := ⟨append⟩

/-- Courses one after the other. -/
def concat (traces : List Trace) : Trace := traces.foldr append empty

variable {a b : Trace}

theorem append_of_failure (h : a.failure.isSome) (b : Trace) : a ++ b = a := by
  obtain ⟨f, hf⟩ := Option.isSome_iff_exists.1 h
  show append a b = a
  simp [append, hf]

theorem append_of_none (h : a.failure = none) (b : Trace) :
    a ++ b = ⟨a.events ++ b.events, b.failure⟩ := by
  show append a b = _
  simp [append, h]

@[simp] theorem empty_append (a : Trace) : empty ++ a = a := rfl

@[simp] theorem append_empty (a : Trace) : a ++ empty = a := by
  cases h : a.failure with
  | some f => exact append_of_failure (by simp [h]) _
  | none => rw [append_of_none h]; cases a; simp_all [empty]

theorem append_assoc (a b c : Trace) : a ++ b ++ c = a ++ (b ++ c) := by
  cases ha : a.failure with
  | some f =>
    have ha : a.failure.isSome := by simp [ha]
    rw [append_of_failure ha, append_of_failure ha, append_of_failure ha]
  | none =>
    cases hb : b.failure with
    | some f =>
      have hb : b.failure.isSome := by simp [hb]
      rw [append_of_failure hb, append_of_failure (by simpa [append_of_none ha] using hb)]
    | none =>
      rw [append_of_none ha, append_of_none hb, append_of_none (by exact hb), append_of_none ha]
      simp

theorem concat_append (ts us : List Trace) : concat (ts ++ us) = concat ts ++ concat us := by
  induction ts with
  | nil => rfl
  | cons t ts ih => exact (congrArg (t ++ ·) ih).trans (append_assoc t _ _).symm

end Trace

/-- How an inclusion runs in a scope. -/
abbrev Inclusion := Scope → Text → Location → Trace

namespace Render

variable (settings : Settings) (inclusion : Inclusion)

/-- Text with its markup inside a paragraph converted. Empty text needs no setting. -/
def inlineMarkup (text : Text) : Except ValueFault Text :=
  if text.isEmpty then .ok []
  else settings.lineBreakText.map fun lineBreak => Markup.inline lineBreak text

/-- Text with its paragraphs and headings converted. Blank text has none and needs no setting. -/
def blockMarkup (text : Text) : Except ValueFault Text :=
  if text.all Text.isBlank then .ok []
  else settings.lineBreakText.map fun lineBreak => Markup.block lineBreak text

/-- What a leaf does in a scope. -/
def leaf (s : Scope) (location : Location) : Leaf → Trace
  | .text content => .wrote content
  | .value path => .attempt (s.resolve path).printed
  | .inclusion name => inclusion s name location
  | .markdown true path => .attempt ((s.resolve path).printed.bind (inlineMarkup settings))
  | .markdown false path => .attempt ((s.resolve path).printed.bind (blockMarkup settings))
  | .json path =>
    match s.resolve path with
    | .absent => .empty
    | d => .attempt (settings.json d.plain)

/-- The failure of an inclusion that there is no room for. -/
def noRoom (name : Text) (location : Location) : RenderFailure :=
  match settings.limit with
  | .ok limit => if limit.room?.isSome then .tooDeep name location limit else .unusable .unlimited
  | .error fault => .unusable fault

end Render

/-- How a loop opens the scope of its body: the scope around it, the element, its index, and the
number of elements. -/
abbrev Opening := Scope → Datum → Int → Int → Scope

namespace Walk

variable (opening : Opening) (settings : Settings) (inclusion : Inclusion)

/-- The scopes of a loop's body, one for each element. -/
def passes (s : Scope) (items : List Datum) : List Scope :=
  items.mapIdx fun i item => opening s item i items.length

mutual

/-- What a node does in a scope. A loop over anything but a list or tuple does nothing. -/
def node (n : Node) (s : Scope) : Trace :=
  match n with
  | .leaf location l => Render.leaf settings inclusion s location l
  | .each _ path body =>
    match (s.resolve path).items? with
    | none => .empty
    | some items => .concat ((passes opening s items).map fun inner => nodes body inner)
  | .cond _ path body elseBody =>
    if (s.resolve path).isTruthy then nodes body s else optionalNodes elseBody s
termination_by structural n

def nodes (ns : List Node) (s : Scope) : Trace :=
  match ns with
  | [] => .empty
  | n :: ns => node n s ++ nodes ns s
termination_by structural ns

def optionalNodes (ns : Option (List Node)) (s : Scope) : Trace :=
  match ns with
  | none => .empty
  | some ns => nodes ns s
termination_by structural ns

end

/-- The nodes of one list after those of another: the courses follow each other. -/
theorem nodes_append (ms ns : List Node) (s : Scope) :
    nodes opening settings inclusion (ms ++ ns) s =
      nodes opening settings inclusion ms s ++ nodes opening settings inclusion ns s := by
  induction ms with
  | nil => rfl
  | cons m ms ih => simp only [List.cons_append, nodes, ih, Trace.append_assoc]

/-- An inclusion below which `room` more may nest. The source is parsed when it is included; neither a
missing nor an empty one takes up room. -/
def included (partials : Partials) : Nat → Inclusion
  | room, s, name, location =>
    match partials.get? name with
    | none => .ofEvent (.missing name location)
    | some [] => .ofEvent (.empty name location)
    | some source =>
      match room with
      | 0 => .fail (Render.noRoom settings name location)
      | room + 1 =>
        match Template.parse (some name) source with
        | .error e => .fail (.malformed e)
        | .ok t => nodes opening settings (included partials room) t.nodes s

/-- The course of some nodes. Where the limit is not positive nothing can be included. -/
def run (partials : Partials) (ns : List Node) (s : Scope) : Trace :=
  nodes opening settings (included opening settings partials settings.room) ns s

end Walk

/-! A render is the walk in which each pass of a loop opens a layer of its own. -/
namespace Render

def passes : Scope → List Datum → List Scope := Walk.passes Scope.child

def nodes : Settings → Inclusion → List Node → Scope → Trace := Walk.nodes Scope.child

def included : Settings → Partials → Nat → Inclusion := Walk.included Scope.child

def run : Settings → Partials → List Node → Scope → Trace := Walk.run Scope.child

theorem passes_eq (s : Scope) (items : List Datum) :
    passes s items = items.mapIdx fun i item => s.child item i items.length := rfl

theorem run_eq (settings : Settings) (partials : Partials) (ns : List Node) (s : Scope) :
    run settings partials ns s =
      nodes settings (included settings partials settings.room) ns s := rfl

theorem nodes_append (settings : Settings) (inclusion : Inclusion) (ms ns : List Node) (s : Scope) :
    nodes settings inclusion (ms ++ ns) s =
      nodes settings inclusion ms s ++ nodes settings inclusion ns s :=
  Walk.nodes_append Scope.child settings inclusion ms ns s

end Render
end Stencil
