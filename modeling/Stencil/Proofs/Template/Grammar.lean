import Stencil.Proofs.Template.Draft
import Stencil.Proofs.Template.Scan
/-! The grammar of blocks. Reading tokens succeeds exactly on the derivable lists, and the nodes it
answers are the only ones that spell the tokens. -/
namespace Stencil

/-- The lists of lexemes that a body may consist of. -/
inductive Lexeme.Body : List Lexeme → Prop
  | nil : Body []
  | leaf (l : Leaf) {rest : List Lexeme} (hr : Body rest) : Body (.leaf l :: rest)
  | each (path : Text) {body rest : List Lexeme} (hb : Body body) (hr : Body rest) :
      Body (.eachOpen path :: (body ++ .eachClose :: rest))
  | cond (path : Text) {body rest : List Lexeme} (hb : Body body) (hr : Body rest) :
      Body (.ifOpen path :: (body ++ .ifClose :: rest))
  | condElse (path : Text) {body elseBody rest : List Lexeme} (hb : Body body)
      (he : Body elseBody) (hr : Body rest) :
      Body (.ifOpen path :: (body ++ .otherwise :: (elseBody ++ .ifClose :: rest)))

theorem Lexeme.Body.append {xs ys : List Lexeme} (hx : Body xs) (hy : Body ys) :
    Body (xs ++ ys) := by
  induction hx with
  | nil => exact hy
  | leaf l _ ih => exact .leaf l ih
  | each path hb _ _ ih => simpa using Body.each path hb ih
  | cond path hb _ _ ih => simpa using Body.cond path hb ih
  | condElse path hb he _ _ _ ih => simpa using Body.condElse path hb he ih

theorem Lexeme.Body.notMem_finish {ls : List Lexeme} (h : Body ls) : Lexeme.finish ∉ ls := by
  induction h with
  | nil => exact List.not_mem_nil
  | leaf l _ ih => simpa using ih
  | each path _ _ ihb ih => simp [ihb, ih]
  | cond path _ _ ihb ih => simp [ihb, ih]
  | condElse path _ _ _ ihb ihe ih => simp [ihb, ihe, ih]

/-- A list whose image is divided by an element is divided by one itself. -/
theorem exists_divided {α β : Type} {f : α → β} {ts : List α} {xs ys : List β} {b : β}
    (h : ts.map f = xs ++ b :: ys) :
    ∃ us a vs, ts = us ++ a :: vs ∧ us.map f = xs ∧ f a = b ∧ vs.map f = ys := by
  obtain ⟨us, ws, rfl, hu, hw⟩ := List.map_eq_append_iff.1 h
  obtain ⟨a, vs, rfl, ha, hv⟩ := List.map_eq_cons_iff.1 hw
  exact ⟨us, a, vs, rfl, hu, ha, hv⟩

namespace Node

/-- A tree spells a derivable list. -/
theorem body_lexemes (ns : List Node) : Lexeme.Body (lexemes ns) := by
  induction ns using forest_induction with
  | nil => exact .nil
  | leaf location l ns ih => exact .leaf l ih
  | each location path body ns ihb ih =>
    rw [lexemes_each]
    exact .each path ihb ih
  | cond location path body ns ihb ih =>
    rw [lexemes_cond]
    exact .cond path ihb ih
  | condElse location path body elseBody ns ihb ihe ih =>
    rw [lexemes_condElse]
    exact .condElse path ihb ihe ih

/-- Some tree spells the tokens of a derivable list. -/
theorem exists_spellings {ls : List Lexeme} (h : Lexeme.Body ls) {ts : List Token}
    (hts : ts.map Token.lexeme = ls) : ∃ ns, spellings ns = ts.map Token.mark := by
  induction h generalizing ts with
  | nil =>
    obtain rfl := List.map_eq_nil_iff.1 hts
    exact ⟨[], rfl⟩
  | leaf l _ ih =>
    obtain ⟨t, ts, rfl, ht, hr⟩ := List.map_eq_cons_iff.1 hts
    obtain ⟨ns, hns⟩ := ih hr
    exact ⟨.leaf t.location l :: ns, by simp [hns, Token.mark, ht, Lexeme.endsBody]⟩
  | each path _ _ ihb ih =>
    obtain ⟨o, ts, rfl, ho, hr⟩ := List.map_eq_cons_iff.1 hts
    obtain ⟨bs, c, ts, rfl, hb, hc, hr⟩ := exists_divided hr
    obtain ⟨body, hbody⟩ := ihb hb
    obtain ⟨ns, hns⟩ := ih hr
    exact ⟨.each o.location path body :: ns, by
      simp [hbody, hns, Token.mark, ho, hc, Lexeme.endsBody]⟩
  | cond path _ _ ihb ih =>
    obtain ⟨o, ts, rfl, ho, hr⟩ := List.map_eq_cons_iff.1 hts
    obtain ⟨bs, c, ts, rfl, hb, hc, hr⟩ := exists_divided hr
    obtain ⟨body, hbody⟩ := ihb hb
    obtain ⟨ns, hns⟩ := ih hr
    exact ⟨.cond o.location path body none :: ns, by
      simp [hbody, hns, Token.mark, ho, hc, Lexeme.endsBody]⟩
  | condElse path _ _ _ ihb ihe ih =>
    obtain ⟨o, ts, rfl, ho, hr⟩ := List.map_eq_cons_iff.1 hts
    obtain ⟨bs, e, ts, rfl, hb, he, hr⟩ := exists_divided hr
    obtain ⟨es, c, ts, rfl, hes, hc, hr⟩ := exists_divided hr
    obtain ⟨body, hbody⟩ := ihb hb
    obtain ⟨elseBody, helse⟩ := ihe hes
    obtain ⟨ns, hns⟩ := ih hr
    exact ⟨.cond o.location path body (some elseBody) :: ns, by
      simp [hbody, helse, hns, Token.mark, ho, he, hc, Lexeme.endsBody]⟩

end Node

namespace Draft

variable {d d' : Draft} {t : Token} {ts us : List Token}

/-- Everything that one token can do: a leaf is added, a block opened, a condition divided, or the
innermost block closed. -/
inductive Step : Draft → Token → Draft → Prop
  | leaf {t : Token} {l : Leaf} (h : t.lexeme = .leaf l) (body : List Node)
      (blocks : List OpenBlock) :
      Step ⟨body, blocks⟩ t ⟨.leaf t.location l :: body, blocks⟩
  | opened {t : Token} (kind : BlockKind) {path : Text} (h : t.lexeme = kind.opener path)
      (body : List Node) (blocks : List OpenBlock) :
      Step ⟨body, blocks⟩ t ⟨[], ⟨kind, t, body, none⟩ :: blocks⟩
  | divided {t : Token} (h : t.lexeme = .otherwise) (body : List Node) (opener : Token)
      (before : List Node) (outer : List OpenBlock) :
      Step ⟨body, ⟨.cond, opener, before, none⟩ :: outer⟩ t
        ⟨[], ⟨.cond, opener, before, some body⟩ :: outer⟩
  | closed {t : Token} (b : OpenBlock) (h : t.lexeme = b.kind.closer) (body : List Node)
      (outer : List OpenBlock) :
      Step ⟨body, b :: outer⟩ t ⟨OpenBlock.node b body :: b.before, outer⟩

theorem read_of_step (h : Step d t d') : d.read t = .ok d' := by
  cases h with
  | leaf h => simp [read, h, add]
  | opened kind h => cases kind <;> simp [read, h, BlockKind.opener, openBlock]
  | divided h => simp [read, h, divideBlock]
  | closed b h => cases hk : b.kind <;> simp [read, h, hk, BlockKind.closer, closeBlock]

theorem step_of_closeBlock (kind : BlockKind) (hl : t.lexeme = kind.closer)
    (h : d.closeBlock kind t = .ok d') : Step d t d' := by
  obtain ⟨body, blocks⟩ := d
  cases blocks with
  | nil => simp [closeBlock] at h
  | cons b outer =>
    simp only [closeBlock] at h
    split at h
    · next hk =>
      obtain rfl := Except.ok.inj h
      exact .closed b (hk ▸ hl) body outer
    · cases h

theorem step_of_divideBlock (hl : t.lexeme = .otherwise) (h : d.divideBlock t = .ok d') :
    Step d t d' := by
  obtain ⟨body, blocks⟩ := d
  cases blocks with
  | nil => simp [divideBlock] at h
  | cons b outer =>
    obtain ⟨kind, opener, before, firstBody⟩ := b
    cases kind <;> cases firstBody <;> simp only [divideBlock, reduceCtorEq] at h
    obtain rfl := Except.ok.inj h
    exact .divided hl body opener before outer

/-- A token of a source that is read without a fault makes such a step. -/
theorem step_of_read (ht : t.lexeme ≠ .finish) (h : d.read t = .ok d') : Step d t d' := by
  cases hl : t.lexeme with
  | finish => exact absurd hl ht
  | leaf l =>
    simp only [read, hl] at h
    obtain rfl := Except.ok.inj h
    exact .leaf hl d.body d.blocks
  | eachOpen path =>
    simp only [read, hl] at h
    obtain rfl := Except.ok.inj h
    exact .opened .each hl d.body d.blocks
  | ifOpen path =>
    simp only [read, hl] at h
    obtain rfl := Except.ok.inj h
    exact .opened .cond hl d.body d.blocks
  | eachClose => exact step_of_closeBlock .each hl (by simpa only [read, hl] using h)
  | ifClose => exact step_of_closeBlock .cond hl (by simpa only [read, hl] using h)
  | otherwise => exact step_of_divideBlock hl (by simpa only [read, hl] using h)

theorem readAll_cons (h : Step d t d') (ts : List Token) :
    d.readAll (t :: ts) = d'.readAll ts := by
  simp [readAll, read_of_step h]

/-- The tokens that a tree spells put its nodes at the end of the innermost body, whatever is read
before and after them. -/
theorem readAll_of_spellings {ns : List Node} (h : Node.spellings ns = ts.map Token.mark)
    (d : Draft) (us : List Token) :
    d.readAll (ts ++ us) = readAll ⟨ns.reverse ++ d.body, d.blocks⟩ us := by
  induction ns using Node.forest_induction generalizing ts d us with
  | nil =>
    obtain rfl := List.map_eq_nil_iff.1 h.symm
    rfl
  | leaf location l ns ih =>
    obtain ⟨t, ts, rfl, ht, hr⟩ := List.map_eq_cons_iff.1 h.symm
    obtain ⟨hl, rfl⟩ := Token.mark_eq_some ht
    rw [List.cons_append, readAll_cons (.leaf hl d.body d.blocks), ih hr.symm]
    simp
  | each location path body ns ihb ih =>
    obtain ⟨o, ts, rfl, hm, hr⟩ := List.map_eq_cons_iff.1 (Node.spellings_each ▸ h).symm
    obtain ⟨bs, c, ts, rfl, hb, hc, hr⟩ := exists_divided hr
    obtain ⟨ho, rfl⟩ := Token.mark_eq_some hm
    have hc : c.lexeme = .eachClose := congrArg Mark.lexeme hc
    rw [List.cons_append, readAll_cons (.opened .each ho d.body d.blocks), List.append_assoc,
      ihb hb.symm, List.cons_append, readAll_cons (.closed _ hc _ _), ih hr.symm]
    simp [OpenBlock.node, ho, Lexeme.argument]
  | cond location path body ns ihb ih =>
    obtain ⟨o, ts, rfl, hm, hr⟩ := List.map_eq_cons_iff.1 (Node.spellings_cond ▸ h).symm
    obtain ⟨bs, c, ts, rfl, hb, hc, hr⟩ := exists_divided hr
    obtain ⟨ho, rfl⟩ := Token.mark_eq_some hm
    have hc : c.lexeme = .ifClose := congrArg Mark.lexeme hc
    rw [List.cons_append, readAll_cons (.opened .cond ho d.body d.blocks), List.append_assoc,
      ihb hb.symm, List.cons_append, readAll_cons (.closed _ hc _ _), ih hr.symm]
    simp [OpenBlock.node, ho, Lexeme.argument]
  | condElse location path body elseBody ns ihb ihe ih =>
    obtain ⟨o, ts, rfl, hm, hr⟩ := List.map_eq_cons_iff.1 (Node.spellings_condElse ▸ h).symm
    obtain ⟨bs, e, ts, rfl, hb, he, hr⟩ := exists_divided hr
    obtain ⟨es, c, ts, rfl, hes, hc, hr⟩ := exists_divided hr
    obtain ⟨ho, rfl⟩ := Token.mark_eq_some hm
    have he : e.lexeme = .otherwise := congrArg Mark.lexeme he
    have hc : c.lexeme = .ifClose := congrArg Mark.lexeme hc
    rw [List.cons_append, readAll_cons (.opened .cond ho d.body d.blocks), List.append_assoc,
      ihb hb.symm, List.cons_append, readAll_cons (.divided he _ _ _ _), List.append_assoc,
      ihe hes.symm, List.cons_append, readAll_cons (.closed _ hc _ _), ih hr.symm]
    simp [OpenBlock.node, ho, Lexeme.argument]

end Draft

namespace OpenBlock

variable {b : OpenBlock}

/-- The opener is a tag of the block's kind, and only a condition is divided. -/
def Fits (b : OpenBlock) : Prop :=
  (∃ path, b.opener.lexeme = b.kind.opener path) ∧ (b.kind = .each → b.firstBody = none)

/-- The marks of what stands in front of the block's current body, back to the block around it. -/
def spelling (b : OpenBlock) : List Mark :=
  Node.spellings b.before.reverse ++ b.opener.mark ::
    b.firstBody.elim [] fun first => Node.spellings first.reverse ++ [⟨.otherwise, none⟩]

/-- Closing a block adds the mark of its closer and nothing else. -/
theorem spellings_node (h : b.Fits) (body : List Node) :
    Node.spellings (Draft.OpenBlock.node b body :: b.before).reverse =
      b.spelling ++ Node.spellings body.reverse ++ [⟨b.kind.closer, none⟩] := by
  obtain ⟨kind, opener, before, firstBody⟩ := b
  obtain ⟨⟨path, ho⟩, hf⟩ := h
  cases kind with
  | each =>
    obtain rfl : firstBody = none := hf rfl
    change opener.lexeme = .eachOpen path at ho
    simp [Draft.OpenBlock.node, spelling, ho, Token.mark, Lexeme.argument, Lexeme.endsBody,
      BlockKind.closer]
  | cond =>
    change opener.lexeme = .ifOpen path at ho
    cases firstBody <;>
      simp [Draft.OpenBlock.node, spelling, ho, Token.mark, Lexeme.argument, Lexeme.endsBody,
      BlockKind.closer]

end OpenBlock

namespace Draft

variable {d d' : Draft} {t : Token} {ts : List Token}

def Fits (d : Draft) : Prop := ∀ b ∈ d.blocks, b.Fits

/-- The marks of everything that stands before the innermost body. -/
def blocksSpelling : List OpenBlock → List Mark
  | [] => []
  | b :: outer => blocksSpelling outer ++ b.spelling

def spelling (d : Draft) : List Mark :=
  blocksSpelling d.blocks ++ Node.spellings d.body.reverse

theorem fits_step (h : Step d t d') (hd : d.Fits) : d'.Fits := by
  cases h with
  | leaf => exact hd
  | opened kind h body blocks =>
    intro b hb
    rcases List.mem_cons.1 hb with rfl | hb
    · exact ⟨⟨_, h⟩, fun _ => rfl⟩
    · exact hd b hb
  | divided h body opener before outer =>
    intro b hb
    rcases List.mem_cons.1 hb with rfl | hb
    · exact ⟨(hd _ List.mem_cons_self).1, nofun⟩
    · exact hd b (List.mem_cons_of_mem _ hb)
  | closed b h body outer => exact fun c hc => hd c (List.mem_cons_of_mem _ hc)

/-- A step spells its token. -/
theorem spelling_step (h : Step d t d') (hd : d.Fits) : d'.spelling = d.spelling ++ [t.mark] := by
  cases h with
  | leaf h => simp [spelling, Token.mark, h, Lexeme.endsBody]
  | opened kind h => simp [spelling, blocksSpelling, OpenBlock.spelling]
  | divided h =>
    simp [spelling, blocksSpelling, OpenBlock.spelling, Token.mark, h, Lexeme.endsBody]
  | closed b h body outer =>
    have hb := OpenBlock.spellings_node (hd b List.mem_cons_self) body
    have ht : t.mark = ⟨b.kind.closer, none⟩ := by
      cases hk : b.kind <;> simp [Token.mark, h, hk, BlockKind.closer, Lexeme.endsBody]
    simp only [spelling, blocksSpelling, hb, ht, List.append_assoc]

theorem spelling_readAll (hts : ∀ t ∈ ts, t.lexeme ≠ .finish) (h : d.readAll ts = .ok d')
    (hd : d.Fits) : d'.spelling = d.spelling ++ ts.map Token.mark := by
  induction ts generalizing d with
  | nil =>
    obtain rfl := Except.ok.inj h
    simp
  | cons t ts ih =>
    simp only [readAll] at h
    split at h
    · cases h
    · next d₁ hread =>
      have hstep := step_of_read (hts t List.mem_cons_self) hread
      rw [ih (fun u hu => hts u (List.mem_cons_of_mem _ hu)) h (fits_step hstep hd),
        spelling_step hstep hd]
      simp

end Draft

namespace Node

variable {ts : List Token} {ns : List Node}

theorem ofTokens_of_spellings (h : spellings ns = ts.map Token.mark) : ofTokens ts = .ok ns := by
  have hts : ∀ t ∈ ts, t.lexeme ≠ .finish := by
    intro t ht hfinish
    refine (body_lexemes ns).notMem_finish ?_
    rw [lexemes_of_spellings h]
    exact List.mem_map.2 ⟨t, ht, hfinish⟩
  have hread := Draft.readAll_of_spellings h .empty []
  rw [List.append_nil] at hread
  rw [Draft.ofTokens_eq_run hts, Draft.run, hread]
  simp [Draft.readAll, Draft.finish, Draft.empty]

theorem spellings_of_ofTokens (hts : ∀ t ∈ ts, t.lexeme ≠ .finish) (h : ofTokens ts = .ok ns) :
    spellings ns = ts.map Token.mark := by
  rw [Draft.ofTokens_eq_run hts, Draft.run] at h
  split at h
  · cases h
  · next d hd =>
    have hs := Draft.spelling_readAll hts hd (List.forall_mem_nil _)
    obtain ⟨body, blocks⟩ := d
    cases blocks with
    | nil =>
      obtain rfl := Except.ok.inj h
      exact hs
    | cons b outer => cases h

/-- Reading answers the nodes that spell the tokens, and there are no others. -/
theorem ofTokens_eq_ok_iff (hts : ∀ t ∈ ts, t.lexeme ≠ .finish) :
    ofTokens ts = .ok ns ↔ spellings ns = ts.map Token.mark :=
  ⟨spellings_of_ofTokens hts, ofTokens_of_spellings⟩

/-- Reading succeeds exactly on derivable lists. -/
theorem exists_ofTokens_iff (hts : ∀ t ∈ ts, t.lexeme ≠ .finish) :
    (∃ ns, ofTokens ts = .ok ns) ↔ Lexeme.Body (ts.map Token.lexeme) := by
  constructor
  · rintro ⟨ns, h⟩
    rw [← lexemes_of_spellings ((ofTokens_eq_ok_iff hts).1 h)]
    exact body_lexemes ns
  · intro h
    obtain ⟨ns, hns⟩ := exists_spellings h rfl
    exact ⟨ns, (ofTokens_eq_ok_iff hts).2 hns⟩

end Node

namespace Template

variable {file : Option Text} {source : Text} {last : Token} {t : Template}

theorem parse_eq_ok_iff (h : (Scan.ofSource file source).ending = .ok last) :
    parse file source = .ok t ↔
      t.file = file ∧
        t.location = ((Scan.ofSource file source).tokens.head?.getD last).location ∧
        Node.spellings t.nodes = (Scan.ofSource file source).tokens.map Token.mark := by
  have hts : ∀ t ∈ (Scan.ofSource file source).tokens, t.lexeme ≠ .finish :=
    Scan.lexeme_ne_finish h
  rw [← Node.ofTokens_eq_ok_iff hts]
  obtain ⟨f, location, nodes⟩ := t
  simp only [parse, h]
  cases Node.ofTokens (Scan.ofSource file source).tokens with
  | error e => simp
  | ok ns => simp [eq_comm]

theorem exists_parse_iff (h : (Scan.ofSource file source).ending = .ok last) :
    (∃ t, parse file source = .ok t) ↔
      Lexeme.Body ((Scan.ofSource file source).tokens.map Token.lexeme) := by
  have hts : ∀ t ∈ (Scan.ofSource file source).tokens, t.lexeme ≠ .finish :=
    Scan.lexeme_ne_finish h
  rw [← Node.exists_ofTokens_iff hts]
  simp only [parse, h]
  cases Node.ofTokens (Scan.ofSource file source).tokens <;> simp

theorem exists_last_of_parse (h : parse file source = .ok t) :
    ∃ last, (Scan.ofSource file source).ending = .ok last := by
  cases hend : (Scan.ofSource file source).ending with
  | error e => simp [parse, hend] at h
  | ok last => exact ⟨last, rfl⟩

/-- The pieces of a source that parses ask for what its tree asks for. -/
theorem lexemes_of_parse (h : parse file source = .ok t) :
    (Piece.divide source).map Piece.lexeme? = (Node.lexemes t.nodes).map some := by
  obtain ⟨last, hend⟩ := exists_last_of_parse h
  have hs := ((parse_eq_ok_iff hend).1 h).2.2
  rw [Node.lexemes_of_spellings hs]
  exact Scan.ofPieces_ok_iff.1 ⟨⟨last, hend⟩, rfl⟩

/-- Pieces that ask for what some tree asks for make a source that parses. -/
theorem exists_parse_of_lexemes (file : Option Text) {ns : List Node}
    (h : (Piece.divide source).map Piece.lexeme? = (Node.lexemes ns).map some) :
    ∃ t, parse file source = .ok t ∧ Node.lexemes t.nodes = Node.lexemes ns := by
  obtain ⟨⟨last, hend⟩, hls⟩ := (Scan.ofPieces_ok_iff (p := .start)).2 h
  obtain ⟨t, ht⟩ := (exists_parse_iff hend).2 (hls ▸ Node.body_lexemes ns)
  have hs := ((parse_eq_ok_iff hend).1 ht).2.2
  exact ⟨t, ht, (Node.lexemes_of_spellings hs).trans hls⟩

/-- A source whose tags are all in order parses exactly if its tokens follow the grammar of blocks.
Its tree then spells the tokens, each part with the argument and the place of its own token, and no
other tree does. -/
theorem parse_follows_grammar (file : Option Text) (source : Text)
    (h : (Scan.ofSource file source).ending.isOk) :
    ((∃ t, parse file source = .ok t) ↔
        Lexeme.Body ((Scan.ofSource file source).tokens.map Token.lexeme)) ∧
      ∀ t, parse file source = .ok t →
        t.file = file ∧
        (Scan.ofSource file source).all.head?.map Token.location = some t.location ∧
        Node.spellings t.nodes = (Scan.ofSource file source).tokens.map Token.mark ∧
        ∀ ns, Node.spellings ns = (Scan.ofSource file source).tokens.map Token.mark →
          ns = t.nodes := by
  obtain ⟨last, h⟩ := exists_ok_of_isOk h
  refine ⟨exists_parse_iff h, ?_⟩
  intro t ht
  obtain ⟨hfile, hloc, hs⟩ := (parse_eq_ok_iff h).1 ht
  refine ⟨hfile, ?_, hs, ?_⟩
  · rw [hloc, Scan.all, h]
    cases (Scan.ofSource file source).tokens <;> rfl
  intro ns hns
  have hother : parse file source = .ok { t with nodes := ns } :=
    (parse_eq_ok_iff h).2 ⟨hfile, hloc, hns⟩
  rw [ht] at hother
  exact congrArg Template.nodes (Except.ok.inj hother).symm

/-- A condition with an empty second body parses, and the else shows in its tree. -/
theorem parse_divided_condition :
    ∃ t, parse none (tagOf "#if a" ++ "x" ++ tagOf "else" ++ tagOf "/if") = .ok t ∧
      Node.lexemes t.nodes = [.ifOpen "a", .leaf (.text "x"), .otherwise, .ifClose] := by
  have hend : (Scan.ofSource none (tagOf "#if a" ++ "x" ++ tagOf "else" ++ tagOf "/if")).ending.isOk
      := by decide +kernel
  have hls : (Scan.ofSource none (tagOf "#if a" ++ "x" ++ tagOf "else" ++ tagOf "/if")).tokens.map
      Token.lexeme = [.ifOpen "a", .leaf (.text "x"), .otherwise, .ifClose] := by decide +kernel
  obtain ⟨hiff, htree⟩ := parse_follows_grammar none _ hend
  rw [hls] at hiff
  obtain ⟨t, ht⟩ := hiff.2 (.condElse "a" (.leaf (.text "x") .nil) .nil .nil)
  exact ⟨t, ht, (Node.lexemes_of_spellings (htree t ht).2.2.1).trans hls⟩

end Template
end Stencil
