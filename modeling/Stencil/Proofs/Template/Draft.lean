import Stencil.Proofs.Template.Forest
import Stencil.Template.Parse
/-! The tree of a list of tokens, read in one pass from left to right with a stack of the blocks that
are open. It is the tree that is read block by block, and the faults are the same. -/
namespace Stencil

theorem BlockKind.closer_injective {kind kind' : BlockKind} (h : kind.closer = kind'.closer) :
    kind = kind' := by
  cases kind <;> cases kind' <;> first | rfl | cases h

theorem BlockKind.closer_ne_otherwise (kind : BlockKind) : kind.closer ≠ .otherwise := by
  cases kind <;> simp [closer]

/-- A block whose closing tag has not been read: the tag that opened it, the nodes in front of it,
and the first body of a condition once its else has been read. Nodes are kept last first. -/
structure OpenBlock where
  kind : BlockKind
  opener : Token
  before : List Node
  firstBody : Option (List Node)

/-- What has been read of a template: the nodes of the innermost body, last first, and the blocks
around it, the innermost first. -/
structure Draft where
  body : List Node
  blocks : List OpenBlock

namespace Draft

def empty : Draft := ⟨[], []⟩

/-- A node at the end of the innermost body. -/
def add (d : Draft) (n : Node) : Draft := { d with body := n :: d.body }

/-- The body of a new block begins. -/
def openBlock (d : Draft) (kind : BlockKind) (opener : Token) : Draft :=
  ⟨[], ⟨kind, opener, d.body, none⟩ :: d.blocks⟩

/-- The block that a body completes. -/
def OpenBlock.node (b : OpenBlock) (body : List Node) : Node :=
  let path := b.opener.lexeme.argument
  match b.kind, b.firstBody with
  | .each, _ => .each b.opener.location path body.reverse
  | .cond, none => .cond b.opener.location path body.reverse none
  | .cond, some first => .cond b.opener.location path first.reverse (some body.reverse)

/-- A closing tag ends the innermost block, which must be of its kind. -/
def closeBlock (d : Draft) (kind : BlockKind) (t : Token) : Except SyntaxError Draft :=
  match d.blocks with
  | [] => .error (t.fault (.strayClose t.raw))
  | b :: outer =>
    if b.kind = kind then .ok ⟨OpenBlock.node b d.body :: b.before, outer⟩
    else .error (t.fault (.mismatchedClose t.raw b.kind.closing b.opener.raw b.opener.start))

/-- An else divides the innermost block, which must be a condition with one body so far. -/
def divideBlock (d : Draft) (t : Token) : Except SyntaxError Draft :=
  match d.blocks with
  | [] => .error (t.fault .strayElse)
  | b :: outer => match b.kind, b.firstBody with
    | .each, _ => .error (t.fault (.elseInLoop b.opener.raw))
    | .cond, some _ => .error (t.fault (.duplicateElse b.opener.raw))
    | .cond, none => .ok ⟨[], { b with firstBody := some d.body } :: outer⟩

/-- What one more token makes of a draft. -/
def read (d : Draft) (t : Token) : Except SyntaxError Draft :=
  match t.lexeme with
  | .leaf l => .ok (d.add (.leaf t.location l))
  | .eachOpen _ => .ok (d.openBlock .each t)
  | .ifOpen _ => .ok (d.openBlock .cond t)
  | .eachClose => d.closeBlock .each t
  | .ifClose => d.closeBlock .cond t
  | .otherwise => d.divideBlock t
  | .finish => .ok d

/-- The nodes of a draft in which no block is open. -/
def finish (d : Draft) : Except SyntaxError (List Node) :=
  match d.blocks with
  | [] => .ok d.body.reverse
  | b :: _ => .error (b.opener.fault (.unterminatedBlock b.opener.raw b.kind.closing))

/-- The draft after some tokens. -/
def readAll : Draft → List Token → Except SyntaxError Draft
  | d, [] => .ok d
  | d, t :: ts => match d.read t with
    | .error e => .error e
    | .ok d => readAll d ts

/-- The nodes that the tokens add to a draft, if its blocks are closed in the end. -/
def run (d : Draft) (ts : List Token) : Except SyntaxError (List Node) :=
  match d.readAll ts with
  | .error e => .error e
  | .ok d => d.finish

/-- Nodes at the end of the innermost body. -/
def addAll (d : Draft) (ns : List Node) : Draft := { d with body := ns.reverse ++ d.body }

variable {d d' : Draft} {t : Token} {ts rest : List Token} {e : SyntaxError} {b : OpenBlock}
  {body : List Node} {outer : List OpenBlock}

theorem run_cons (h : d.read t = .ok d') (ts : List Token) : d.run (t :: ts) = d'.run ts := by
  simp only [run, readAll, h]

theorem run_cons_of_error (h : d.read t = .error e) (ts : List Token) :
    d.run (t :: ts) = .error e := by
  simp only [run, readAll, h]

/-- The end of a body comes next: a closing tag, an else, or no token at all. -/
def AtEnd (ts : List Token) : Prop := ∀ t ∈ ts.head?, t.lexeme.endsBody

open Node (expectClose parseBody parseNode parseEach parseIf)

/-- How a body is read, whatever has been read before it: there is a fault, or its nodes are added and
the tokens that are left come next. -/
inductive ReadsBody (ts : List Token) : Except SyntaxError (List Node × Rest ts) → Prop
  | fault {e : SyntaxError} (hrun : ∀ d : Draft, d.run ts = .error e) : ReadsBody ts (.error e)
  | nodes {ns : List Node} {rest : Rest ts} (hrun : ∀ d : Draft, d.run ts = (d.addAll ns).run rest.1)
    (hend : AtEnd rest.1) : ReadsBody ts (.ok (ns, rest))

/-- And how a node is read that begins with the token `t`. -/
inductive ReadsNode (t : Token) (ts : List Token) : Except SyntaxError (Node × Rest ts) → Prop
  | fault {e : SyntaxError} (hrun : ∀ d : Draft, d.run (t :: ts) = .error e) :
    ReadsNode t ts (.error e)
  | node {n : Node} {rest : Rest ts} (hrun : ∀ d : Draft, d.run (t :: ts) = (d.add n).run rest.1) :
    ReadsNode t ts (.ok (n, rest))

/-- How the innermost block ends: there is a fault, or the block is added as a node. -/
inductive ReadsClose (b : OpenBlock) (body : List Node) (outer : List OpenBlock) (ts : List Token) :
    Except SyntaxError (Rest ts) → Prop
  | fault {e : SyntaxError} (hrun : run ⟨body, b :: outer⟩ ts = .error e) :
    ReadsClose b body outer ts (.error e)
  | closed {rest : Rest ts}
    (hrun : run ⟨body, b :: outer⟩ ts = run ⟨OpenBlock.node b body :: b.before, outer⟩ rest.1) :
    ReadsClose b body outer ts (.ok rest)

variable {path : Text} {us : List Token} {ns : List Node}

theorem closeBlock_cons (kind : BlockKind) (t : Token) (body : List Node) (b : OpenBlock)
    (outer : List OpenBlock) : closeBlock ⟨body, b :: outer⟩ kind t =
      if b.kind = kind then .ok ⟨OpenBlock.node b body :: b.before, outer⟩
      else .error (t.fault (.mismatchedClose t.raw b.kind.closing b.opener.raw b.opener.start)) := rfl

/-- A closing tag ends the block if it is of the block's kind, and is at fault otherwise. -/
theorem readsClose_closer (b : OpenBlock) (body : List Node) (outer : List OpenBlock)
    (kind : BlockKind) (ht : t.lexeme = kind.closer) (ts : List Token) :
    ReadsClose b body outer (t :: ts) (expectClose b.kind b.opener (t :: ts)) := by
  have hread : read ⟨body, b :: outer⟩ t = closeBlock ⟨body, b :: outer⟩ kind t := by
    cases kind <;> simp only [read, ht, BlockKind.closer]
  by_cases hkind : b.kind = kind
  · rw [expectClose, if_pos (hkind ▸ ht)]
    exact .closed (run_cons (by rw [hread, closeBlock_cons, if_pos hkind]) ts)
  · have hcloser : t.lexeme ≠ b.kind.closer := by
      rw [ht]
      exact fun h => hkind (BlockKind.closer_injective h).symm
    have helse : t.lexeme ≠ .otherwise := ht ▸ kind.closer_ne_otherwise
    rw [expectClose, if_neg hcloser, if_neg helse]
    exact .fault (run_cons_of_error (by rw [hread, closeBlock_cons, if_neg hkind]) ts)

/-- At the end of its body a block is closed, or what comes next is at fault. An else does not come
next if it could divide the block. -/
theorem readsClose_expectClose (b : OpenBlock) (body : List Node) (outer : List OpenBlock)
    (hend : AtEnd ts) (hts : ∀ t ∈ ts, t.lexeme ≠ .finish)
    (helse : b.kind = .cond → ∀ t ∈ ts.head?, t.lexeme ≠ .otherwise) :
    ReadsClose b body outer ts (expectClose b.kind b.opener ts) := by
  cases ts with
  | nil => exact .fault rfl
  | cons t ts =>
    cases hlexeme : t.lexeme with
    | eachClose => exact readsClose_closer b body outer .each hlexeme ts
    | ifClose => exact readsClose_closer b body outer .cond hlexeme ts
    | otherwise =>
      cases hb : b.kind with
      | cond => exact absurd hlexeme (helse hb t rfl)
      | each =>
        rw [expectClose, if_neg (hlexeme ▸ (BlockKind.closer_ne_otherwise _).symm), if_pos hlexeme]
        exact .fault (run_cons_of_error (by simp only [read, hlexeme, divideBlock, hb]) ts)
    | finish => exact absurd hlexeme (hts t List.mem_cons_self)
    | leaf | eachOpen | ifOpen =>
      have hends := hend t rfl
      rw [hlexeme] at hends
      cases hends

/-- A block is read up to the end of its last body: what is left is to close it. -/
theorem readsNode_of_close (ns : List Node) (first : Option (List Node)) (rest : Rest ts)
    {kind : BlockKind} {n : Node} (hrun : ∀ d : Draft, d.run (t :: ts) =
      run ⟨ns.reverse, ⟨kind, t, d.body, first⟩ :: d.blocks⟩ rest.1)
    (hnode : ∀ before, OpenBlock.node ⟨kind, t, before, first⟩ ns.reverse = n)
    (hend : AtEnd rest.1) (hts : ∀ t ∈ ts, t.lexeme ≠ .finish)
    (helse : kind = .cond → ∀ t ∈ rest.1.head?, t.lexeme ≠ .otherwise) :
    ReadsNode t ts (do
      let last ← expectClose kind t rest.1
      return (n, rest.of last)) := by
  have hclose (d : Draft) : ReadsClose ⟨kind, t, d.body, first⟩ ns.reverse d.blocks rest.1
      (expectClose kind t rest.1) :=
    readsClose_expectClose _ _ _ hend (fun t ht => hts t (rest.2.subset ht)) helse
  generalize expectClose kind t rest.1 = result at hclose
  cases result with
  | error e =>
    refine .fault fun d => (hrun d).trans ?_
    cases hclose d with
    | fault hfault => exact hfault
  | ok last =>
    refine .node fun d => (hrun d).trans ?_
    cases hclose d with
    | closed hclosed => exact hclosed.trans (by rw [hnode]; rfl)

/-- The body of a block that has been opened is read up to its end. -/
theorem run_of_body {kind : BlockKind} {first : Option (List Node)}
    (hopen : ∀ d : Draft, d.run (t :: ts) = run ⟨[], ⟨kind, t, d.body, first⟩ :: d.blocks⟩ us)
    (hrun : ∀ d : Draft, d.run us = (d.addAll ns).run rest) (d : Draft) :
    d.run (t :: ts) = run ⟨ns.reverse, ⟨kind, t, d.body, first⟩ :: d.blocks⟩ rest := by
  rw [hopen, hrun]
  simp only [addAll, List.append_nil]

theorem readsNode_parseEach (ht : t.lexeme = .eachOpen path) (hts : ∀ t ∈ ts, t.lexeme ≠ .finish)
    (hbody : ReadsBody ts (parseBody ts)) : ReadsNode t ts (parseEach t path ts) := by
  have hopen (d : Draft) : d.run (t :: ts) = (d.openBlock .each t).run ts :=
    run_cons (by simp only [read, ht]) ts
  rw [parseEach]
  generalize parseBody ts = result at hbody
  cases hbody with
  | fault hrun => exact .fault fun d => (hopen d).trans (hrun _)
  | @nodes ns rest hrun hend =>
    refine readsNode_of_close ns none rest (run_of_body hopen hrun) (fun before => ?_) hend hts nofun
    simp only [OpenBlock.node, ht, Lexeme.argument, List.reverse_reverse]

theorem divided?_cases (rest : Rest ts) :
    rest.divided? = none ∧ (∀ t ∈ rest.1.head?, t.lexeme ≠ .otherwise) ∨
      ∃ t more, rest.divided? = some (t, more) ∧ t.lexeme = .otherwise ∧ rest.1 = t :: more.1 := by
  obtain ⟨_ | ⟨t, rest⟩, hrest⟩ := rest
  · exact .inl ⟨rfl, nofun⟩
  · by_cases ht : t.lexeme = .otherwise
    · exact .inr ⟨t, _, if_pos ht, ht, rfl⟩
    · exact .inl ⟨if_neg ht, by rintro u ⟨⟩; exact ht⟩

/-- Behind its else a condition is read up to its closing tag, and another else is at fault. -/
theorem readsNode_of_else (ns : List Node) (more : Rest ts) (ht : t.lexeme = .ifOpen path)
    (hts : ∀ t ∈ ts, t.lexeme ≠ .finish)
    (helse : ∀ d : Draft, d.run (t :: ts) =
      run ⟨[], ⟨.cond, t, d.body, some ns.reverse⟩ :: d.blocks⟩ more.1)
    (hbody : ReadsBody more.1 (parseBody more.1)) :
    ReadsNode t ts (do
      let (elseBody, last) ← parseBody more.1
      match last.divided? with
      | some (second, _) => throw (second.fault (.duplicateElse t.raw))
      | none =>
        let closed ← expectClose .cond t last.1
        return (.cond t.location path ns (some elseBody), more.of (last.of closed))) := by
  generalize parseBody more.1 = result at hbody
  cases hbody with
  | fault hrun => exact .fault fun d => (helse d).trans (hrun _)
  | @nodes os last hrun hend =>
    have hreach := run_of_body helse hrun
    dsimp only [bind, Except.bind]
    rcases divided?_cases last with ⟨hnone, hnot⟩ | ⟨u, further, hsome, hu, hlast⟩
    · rw [hnone]
      refine readsNode_of_close os (some ns.reverse) (more.of last) hreach (fun before => ?_) hend
        hts fun _ => hnot
      simp only [OpenBlock.node, ht, Lexeme.argument, List.reverse_reverse]
    · rw [hsome]
      refine .fault fun d => ?_
      rw [hreach, hlast]
      exact run_cons_of_error (by simp only [read, hu, divideBlock]) further.1

theorem readsNode_parseIf (ht : t.lexeme = .ifOpen path) (hts : ∀ t ∈ ts, t.lexeme ≠ .finish)
    (hbody : ∀ rest : Rest ts, ReadsBody rest.1 (parseBody rest.1)) :
    ReadsNode t ts (parseIf t path ts) := by
  have hopen (d : Draft) : d.run (t :: ts) = (d.openBlock .cond t).run ts :=
    run_cons (by simp only [read, ht]) ts
  have hfirst : ReadsBody ts (parseBody ts) := hbody (.all ts)
  rw [parseIf]
  generalize parseBody ts = result at hfirst
  cases hfirst with
  | fault hrun => exact .fault fun d => (hopen d).trans (hrun _)
  | @nodes ns rest hrun hend =>
    have hreach := run_of_body hopen hrun
    dsimp only [bind, Except.bind]
    rcases divided?_cases rest with ⟨hnone, hnot⟩ | ⟨u, more, hsome, hu, hrest⟩
    · rw [hnone]
      refine readsNode_of_close ns none rest hreach (fun before => ?_) hend hts fun _ => hnot
      simp only [OpenBlock.node, ht, Lexeme.argument, List.reverse_reverse]
    · rw [hsome]
      refine readsNode_of_else ns more ht hts (fun d => ?_) (hbody more)
      rw [hreach, hrest]
      exact run_cons (by simp only [read, hu, divideBlock]) more.1

/-- A node comes first in its body. -/
theorem readsBody_cons {result : Except SyntaxError (Node × Rest ts)}
    (hresult : parseNode t ts = some <$> result) (hnode : ReadsNode t ts result)
    (hbody : ∀ rest : Rest ts, ReadsBody rest.1 (parseBody rest.1)) :
    ReadsBody (t :: ts) (parseBody (t :: ts)) := by
  rw [parseBody, hresult]
  cases hnode with
  | fault hrun => exact .fault hrun
  | @node n rest hrun =>
    have hrest := hbody rest
    dsimp only [Functor.map, Except.map, bind, Except.bind]
    generalize parseBody rest.1 = others at hrest
    cases hrest with
    | fault hothers => exact .fault fun d => (hrun d).trans (hothers _)
    | @nodes ns last hothers hend =>
      refine .nodes (fun d => ?_) hend
      rw [hrun, hothers]
      simp only [addAll, add, List.reverse_cons, List.append_assoc, List.singleton_append]
      rfl

/-- Reading a body block by block adds what reading it from left to right adds. -/
theorem readsBody_parseBody : ∀ ts : List Token, (∀ t ∈ ts, t.lexeme ≠ .finish) →
    ReadsBody ts (parseBody ts)
  | [], _ => by
    rw [parseBody]
    refine .nodes (fun _ => rfl) ?_
    rintro t ⟨⟩
  | t :: ts, hts => by
    have htail : ∀ u ∈ ts, u.lexeme ≠ .finish := fun u hu => hts u (List.mem_cons_of_mem t hu)
    have hbody (rest : Rest ts) : ReadsBody rest.1 (parseBody rest.1) :=
      have := rest.2.length_le
      readsBody_parseBody rest.1 fun u hu => htail u (rest.2.subset hu)
    cases ht : t.lexeme with
    | leaf l =>
      have hleaf : ReadsNode t ts (.ok (.leaf t.location l, .all ts)) :=
        .node fun d => run_cons (by simp only [read, ht]) ts
      refine readsBody_cons ?_ hleaf hbody
      rw [parseNode, ht]
      rfl
    | eachOpen path =>
      refine readsBody_cons ?_ (readsNode_parseEach ht htail (hbody (.all ts))) hbody
      rw [parseNode, ht]
      rfl
    | ifOpen path =>
      refine readsBody_cons ?_ (readsNode_parseIf ht htail hbody) hbody
      rw [parseNode, ht]
      rfl
    | eachClose | ifClose | otherwise =>
      have hnone : parseNode t ts = .ok none := by
        rw [parseNode, ht]
        rfl
      rw [parseBody, hnone]
      refine .nodes (fun _ => rfl) ?_
      rintro u ⟨⟩
      rw [ht]
      rfl
    | finish => exact absurd ht (hts t List.mem_cons_self)
termination_by ts => ts.length

/-- The tree that is read block by block is the one that is read from left to right. -/
theorem ofTokens_eq_run (hts : ∀ t ∈ ts, t.lexeme ≠ .finish) : Node.ofTokens ts = empty.run ts := by
  have hbody := readsBody_parseBody ts hts
  rw [Node.ofTokens]
  generalize parseBody ts = result at hbody
  cases hbody with
  | fault hrun => exact (hrun empty).symm
  | @nodes ns rest hrun hend =>
    rw [hrun]
    obtain ⟨_ | ⟨t, us⟩, hrest⟩ := rest
    · simp [run, readAll, finish, addAll, empty, bind, Except.bind, pure, Except.pure]
    · have hends := hend t rfl
      refine (run_cons_of_error (e := Node.strayFault t) ?_ us).symm
      cases ht : t.lexeme with
      | eachClose | ifClose | otherwise =>
        simp only [read, ht, closeBlock, divideBlock, addAll, empty, Node.strayFault, reduceCtorEq]
        rfl
      | finish => exact absurd ht (hts t (hrest.subset List.mem_cons_self))
      | leaf | eachOpen | ifOpen =>
        rw [ht] at hends
        cases hends

end Draft
end Stencil
