import Stencil.Template.Token
import Stencil.Template.Tree
/-! Lists of nodes: induction along their blocks, the marks they spell, and the replacement of their
leaves. -/
namespace Stencil

/-- What a tree keeps of a token: what it asks for, and its place unless it only divides or closes a
block. -/
structure Mark where
  lexeme : Lexeme
  location : Option Location
deriving DecidableEq

/-- Whether a body ends at such a lexeme. -/
def Lexeme.endsBody : Lexeme → Bool
  | .eachClose | .otherwise | .ifClose | .finish => true
  | _ => false

def Token.mark (t : Token) : Mark :=
  ⟨t.lexeme, if t.lexeme.endsBody then none else some t.location⟩

/-- A token that stands in no source. -/
def Token.bare (l : Lexeme) : Token := ⟨l, [], none, ⟨0, 0, 0⟩⟩

@[simp] theorem Token.mark_bare (l : Lexeme) :
    (Token.bare l).mark = ⟨l, if l.endsBody then none else some .unknown⟩ := rfl

theorem Token.mark_eq_some {t : Token} {l : Lexeme} {location : Location}
    (h : t.mark = ⟨l, some location⟩) : t.lexeme = l ∧ t.location = location := by
  obtain ⟨hl, hloc⟩ := Mark.mk.inj h
  refine ⟨hl, ?_⟩
  split at hloc
  · cases hloc
  · exact Option.some.inj hloc

namespace Node

variable {location : Location} {path : Text} {l : Leaf} {ls : List Lexeme}
  {body elseBody ms ns : List Node}

/-- Induction over a list of nodes, a leaf or a block in front at a time. -/
@[elab_as_elim]
theorem forest_induction {motive : List Node → Prop} (nil : motive [])
    (leaf : ∀ location l ns, motive ns → motive (.leaf location l :: ns))
    (each : ∀ location path body ns, motive body → motive ns →
      motive (.each location path body :: ns))
    (cond : ∀ location path body ns, motive body → motive ns →
      motive (.cond location path body none :: ns))
    (condElse : ∀ location path body elseBody ns, motive body → motive elseBody → motive ns →
      motive (.cond location path body (some elseBody) :: ns)) :
    ∀ ns, motive ns
  | [] => nil
  | .leaf location l :: ns =>
    leaf location l ns (forest_induction nil leaf each cond condElse ns)
  | .each location path body :: ns =>
    each location path body ns (forest_induction nil leaf each cond condElse body)
      (forest_induction nil leaf each cond condElse ns)
  | .cond location path body none :: ns =>
    cond location path body ns (forest_induction nil leaf each cond condElse body)
      (forest_induction nil leaf each cond condElse ns)
  | .cond location path body (some elseBody) :: ns =>
    condElse location path body elseBody ns (forest_induction nil leaf each cond condElse body)
      (forest_induction nil leaf each cond condElse elseBody)
      (forest_induction nil leaf each cond condElse ns)

mutual

/-- The marks of a node in order: its opener, its bodies with the else between them, its closer. -/
def spelling : Node → List Mark
  | .leaf location l => [⟨.leaf l, some location⟩]
  | .each location path body =>
    ⟨.eachOpen path, some location⟩ :: (spellings body ++ [⟨.eachClose, none⟩])
  | .cond location path body elseBody =>
    ⟨.ifOpen path, some location⟩ ::
      (spellings body ++ elseSpelling elseBody ++ [⟨.ifClose, none⟩])
termination_by structural n => n

def spellings : List Node → List Mark
  | [] => []
  | n :: ns => spelling n ++ spellings ns
termination_by structural ns => ns

/-- A second body is spelled with its else; without one there is none. -/
def elseSpelling : Option (List Node) → List Mark
  | none => []
  | some ns => ⟨.otherwise, none⟩ :: spellings ns
termination_by structural ns => ns

end

@[simp] theorem spellings_nil : spellings [] = [] := rfl

@[simp] theorem spellings_leaf :
    spellings (.leaf location l :: ns) = ⟨.leaf l, some location⟩ :: spellings ns := rfl

@[simp] theorem spellings_each :
    spellings (.each location path body :: ns) =
      ⟨.eachOpen path, some location⟩ ::
        (spellings body ++ ⟨.eachClose, none⟩ :: spellings ns) := by
  simp [spellings, spelling]

@[simp] theorem spellings_cond :
    spellings (.cond location path body none :: ns) =
      ⟨.ifOpen path, some location⟩ :: (spellings body ++ ⟨.ifClose, none⟩ :: spellings ns) := by
  simp [spellings, spelling, elseSpelling]

@[simp] theorem spellings_condElse :
    spellings (.cond location path body (some elseBody) :: ns) =
      ⟨.ifOpen path, some location⟩ :: (spellings body ++ ⟨.otherwise, none⟩ ::
        (spellings elseBody ++ ⟨.ifClose, none⟩ :: spellings ns)) := by
  simp [spellings, spelling, elseSpelling]

@[simp] theorem spellings_append (ms ns : List Node) :
    spellings (ms ++ ns) = spellings ms ++ spellings ns := by
  induction ms with
  | nil => rfl
  | cons m ms ih => simp [spellings, ih]

/-- What a tree asks for, without the places. -/
def lexemes (ns : List Node) : List Lexeme := (spellings ns).map Mark.lexeme

@[simp] theorem lexemes_nil : lexemes [] = [] := rfl

@[simp] theorem lexemes_leaf : lexemes (.leaf location l :: ns) = .leaf l :: lexemes ns := rfl

@[simp] theorem lexemes_each :
    lexemes (.each location path body :: ns) =
      .eachOpen path :: (lexemes body ++ .eachClose :: lexemes ns) := by
  simp [lexemes]

@[simp] theorem lexemes_cond :
    lexemes (.cond location path body none :: ns) =
      .ifOpen path :: (lexemes body ++ .ifClose :: lexemes ns) := by
  simp [lexemes]

@[simp] theorem lexemes_condElse :
    lexemes (.cond location path body (some elseBody) :: ns) =
      .ifOpen path :: (lexemes body ++ .otherwise ::
        (lexemes elseBody ++ .ifClose :: lexemes ns)) := by
  simp [lexemes]

@[simp] theorem lexemes_append (ms ns : List Node) :
    lexemes (ms ++ ns) = lexemes ms ++ lexemes ns := by
  simp [lexemes]

theorem lexemes_eq_nil_iff : lexemes ns = [] ↔ ns = [] := by
  refine ⟨fun h => ?_, fun h => by rw [h]; rfl⟩
  cases ns with
  | nil => rfl
  | cons n ns =>
    cases n with
    | leaf location l => cases h
    | each location path body => simp at h
    | cond location path body elseBody => cases elseBody <;> simp at h

/-- A tree that asks for a leaf first starts with it. -/
theorem exists_of_lexemes_cons (h : lexemes ns = .leaf l :: ls) :
    ∃ location tail, ns = .leaf location l :: tail ∧ lexemes tail = ls := by
  cases ns with
  | nil => cases h
  | cons n ns =>
    cases n with
    | leaf location m =>
      rw [lexemes_leaf] at h
      obtain ⟨hl, hls⟩ := List.cons.inj h
      obtain rfl := Lexeme.leaf.inj hl
      exact ⟨location, ns, rfl, hls⟩
    | each location path body => simp at h
    | cond location path body elseBody => cases elseBody <;> simp at h

/-- A tree that asks for a leaf last ends with it, since a block ends with its closer. -/
theorem exists_of_lexemes_concat (h : lexemes ns = ls ++ [.leaf l]) :
    ∃ front location, ns = front ++ [.leaf location l] ∧ lexemes front = ls := by
  rcases List.eq_nil_or_concat ns with rfl | ⟨front, n, rfl⟩
  · simp at h
  have hlast := congrArg List.getLast? h
  rw [List.concat_eq_append, lexemes_append] at h hlast
  cases n with
  | leaf location m =>
    obtain ⟨hls, hl⟩ := List.append_inj' h rfl
    obtain rfl : m = l := by simpa using hl
    exact ⟨front, location, List.concat_eq_append, hls⟩
  | each location path body => simp [List.getLast?_cons] at hlast
  | cond location path body elseBody => cases elseBody <;> simp [List.getLast?_cons] at hlast

theorem lexemes_of_spellings {ts : List Token} (h : spellings ns = ts.map Token.mark) :
    lexemes ns = ts.map Token.lexeme := by
  simp only [lexemes, h, List.map_map]
  rfl

section replace

variable (onLeaf : Location → Leaf → List Node) (onPlace : Location → Location)

mutual

/-- The nodes that take the place of a node: `onLeaf` says what becomes of a leaf, at any depth, and
`onPlace` where a block is said to stand. -/
def replaceNode : Node → List Node
  | .leaf location l => onLeaf location l
  | .each location path body => [.each (onPlace location) path (replace body)]
  | .cond location path body elseBody =>
    [.cond (onPlace location) path (replace body) (replaceOptional elseBody)]
termination_by structural n => n

def replace : List Node → List Node
  | [] => []
  | n :: ns => replaceNode n ++ replace ns
termination_by structural ns => ns

def replaceOptional : Option (List Node) → Option (List Node)
  | none => none
  | some ns => some (replace ns)
termination_by structural ns => ns

end

@[simp] theorem replace_nil : replace onLeaf onPlace [] = [] := rfl

@[simp] theorem replace_leaf :
    replace onLeaf onPlace (.leaf location l :: ns) =
      onLeaf location l ++ replace onLeaf onPlace ns := rfl

@[simp] theorem replace_each :
    replace onLeaf onPlace (.each location path body :: ns) =
      .each (onPlace location) path (replace onLeaf onPlace body) ::
        replace onLeaf onPlace ns := rfl

@[simp] theorem replace_cond :
    replace onLeaf onPlace (.cond location path body none :: ns) =
      .cond (onPlace location) path (replace onLeaf onPlace body) none ::
        replace onLeaf onPlace ns := rfl

@[simp] theorem replace_condElse :
    replace onLeaf onPlace (.cond location path body (some elseBody) :: ns) =
      .cond (onPlace location) path (replace onLeaf onPlace body)
        (some (replace onLeaf onPlace elseBody)) :: replace onLeaf onPlace ns := rfl

end replace

/-- Leaves that stay make a tree that stays. -/
theorem replace_self (ns : List Node) :
    replace (fun location l => [.leaf location l]) id ns = ns := by
  induction ns using forest_induction with
  | nil => rfl
  | leaf location l ns ih => simp [ih]
  | each location path body ns ihb ih => simp [ihb, ih]
  | cond location path body ns ihb ih => simp [ihb, ih]
  | condElse location path body elseBody ns ihb ihe ih => simp [ihb, ihe, ih]

/-- The tree without its places: what stands in no source stands nowhere. -/
def unplaced (ns : List Node) : List Node :=
  replace (fun _ l => [.leaf .unknown l]) (fun _ => .unknown) ns

end Node
end Stencil
