import Stencil.Proofs.Template.Grammar
/-! Faults in the blocks of a template: which token is at fault, what is said about it, and which
block is named when the template ends too early. -/
namespace Stencil

/-- The beginnings of derivable lists. -/
def Lexeme.Extendable (ls : List Lexeme) : Prop := ∃ more, Body (ls ++ more)

/-- A block that has not been closed: its kind, the tag that opened it, and whether an else has
divided it. -/
structure OpenTag where
  kind : BlockKind
  opener : Token
  divided : Bool

namespace OpenTag

/-- The open blocks after one more token, the innermost first. -/
def next (tags : List OpenTag) (t : Token) : List OpenTag :=
  match t.lexeme, tags with
  | .eachOpen _, _ => ⟨.each, t, false⟩ :: tags
  | .ifOpen _, _ => ⟨.cond, t, false⟩ :: tags
  | .eachClose, _ | .ifClose, _ => tags.tail
  | .otherwise, b :: outer => { b with divided := true } :: outer
  | _, _ => tags

/-- The blocks that some tokens leave open. -/
def after (ts : List Token) : List OpenTag := ts.foldl next []

def ofBlock (b : OpenBlock) : OpenTag := ⟨b.kind, b.opener, b.firstBody.isSome⟩

end OpenTag

/-- What is wrong with a token, which the innermost open block decides: outside of all blocks it
closes or divides none, a loop is not divided, a condition not divided twice, and no block is closed
by the tag of the other kind. -/
inductive Misplaced : List OpenTag → Token → SyntaxError.Cause → Prop
  | strayClose {t : Token} (kind : BlockKind) (h : t.lexeme = kind.closer) :
      Misplaced [] t (.strayClose t.raw)
  | strayElse {t : Token} (h : t.lexeme = .otherwise) : Misplaced [] t .strayElse
  | elseInLoop {t : Token} {b : OpenTag} {outer : List OpenTag} (h : t.lexeme = .otherwise)
      (hb : b.kind = .each) : Misplaced (b :: outer) t (.elseInLoop b.opener.raw)
  | duplicateElse {t : Token} {b : OpenTag} {outer : List OpenTag} (h : t.lexeme = .otherwise)
      (hb : b.kind = .cond) (hd : b.divided = true) :
      Misplaced (b :: outer) t (.duplicateElse b.opener.raw)
  | mismatchedClose {t : Token} {b : OpenTag} {outer : List OpenTag} (kind : BlockKind)
      (h : t.lexeme = kind.closer) (hb : b.kind ≠ kind) :
      Misplaced (b :: outer) t
        (.mismatchedClose t.raw b.kind.closing b.opener.raw b.opener.start)

/-- The fault in the blocks of some tokens. It is shown by the first token after which no more
tokens make the list derivable, or else by the opener of the innermost block that is still open at
the end. -/
inductive BlockFault (ts : List Token) : SyntaxError → Prop
  | misplaced {us vs : List Token} {t : Token} {cause : SyntaxError.Cause}
      (hts : ts = us ++ t :: vs) (hbefore : Lexeme.Extendable (us.map Token.lexeme))
      (hat : ¬ Lexeme.Extendable ((us ++ [t]).map Token.lexeme))
      (hcause : Misplaced (OpenTag.after us) t cause) : BlockFault ts (t.fault cause)
  | unterminated {b : OpenTag} {outer : List OpenTag}
      (hts : Lexeme.Extendable (ts.map Token.lexeme)) (hopen : OpenTag.after ts = b :: outer) :
      BlockFault ts (b.opener.fault (.unterminatedBlock b.opener.raw b.kind.closing))

namespace Draft

variable {d d' : Draft} {t : Token} {ts us : List Token} {e : SyntaxError}

/-- The open blocks of a draft, without the nodes that have been read. -/
def openTags (d : Draft) : List OpenTag := d.blocks.map OpenTag.ofBlock

theorem readAll_append (d : Draft) (ts us : List Token) :
    d.readAll (ts ++ us) = (d.readAll ts).bind fun d' => d'.readAll us := by
  induction ts generalizing d with
  | nil => rfl
  | cons t ts ih =>
    simp only [List.cons_append, readAll]
    cases d.read t with
    | error e => rfl
    | ok d => exact ih d

theorem openTags_step (h : Step d t d') : d'.openTags = OpenTag.next d.openTags t := by
  cases h with
  | leaf h => simp [openTags, OpenTag.next, h]
  | opened kind h =>
    cases kind <;> simp [openTags, OpenTag.next, OpenTag.ofBlock, h, BlockKind.opener]
  | divided h => simp [openTags, OpenTag.next, OpenTag.ofBlock, h]
  | closed b h =>
    cases hk : b.kind <;> simp [openTags, OpenTag.next, h, hk, BlockKind.closer]

theorem openTags_readAll (hts : ∀ t ∈ ts, t.lexeme ≠ .finish) (h : d.readAll ts = .ok d') :
    d'.openTags = ts.foldl OpenTag.next d.openTags := by
  induction ts generalizing d with
  | nil =>
    obtain rfl := Except.ok.inj h
    rfl
  | cons t ts ih =>
    simp only [readAll] at h
    split at h
    · cases h
    · next d₁ hread =>
      have hstep := step_of_read (hts t List.mem_cons_self) hread
      rw [ih (fun u hu => hts u (List.mem_cons_of_mem t hu)) h, openTags_step hstep]
      rfl

theorem misplaced_of_closeBlock (kind : BlockKind) (ht : t.lexeme = kind.closer)
    (h : d.closeBlock kind t = .error e) :
    ∃ cause, Misplaced d.openTags t cause ∧ e = t.fault cause := by
  obtain ⟨body, blocks⟩ := d
  cases blocks with
  | nil =>
    obtain rfl := Except.error.inj h
    exact ⟨_, .strayClose kind ht, rfl⟩
  | cons b outer =>
    simp only [closeBlock] at h
    split at h
    · cases h
    · next hk =>
      obtain rfl := Except.error.inj h
      exact ⟨_, .mismatchedClose kind ht hk, rfl⟩

theorem misplaced_of_divideBlock (ht : t.lexeme = .otherwise) (h : d.divideBlock t = .error e) :
    ∃ cause, Misplaced d.openTags t cause ∧ e = t.fault cause := by
  obtain ⟨body, blocks⟩ := d
  cases blocks with
  | nil =>
    obtain rfl := Except.error.inj h
    exact ⟨_, .strayElse ht, rfl⟩
  | cons b outer =>
    obtain ⟨kind, opener, before, firstBody⟩ := b
    cases kind with
    | each =>
      obtain rfl := Except.error.inj h
      exact ⟨_, .elseInLoop ht rfl, rfl⟩
    | cond =>
      cases firstBody with
      | none => cases h
      | some first =>
        obtain rfl := Except.error.inj h
        exact ⟨_, .duplicateElse ht rfl rfl, rfl⟩

/-- A token that is refused is misplaced, and the fault is said to stand at it. -/
theorem misplaced_of_read (h : d.read t = .error e) :
    ∃ cause, Misplaced d.openTags t cause ∧ e = t.fault cause := by
  cases hl : t.lexeme with
  | leaf l => simp [read, hl] at h
  | eachOpen path => simp [read, hl] at h
  | ifOpen path => simp [read, hl] at h
  | finish => simp [read, hl] at h
  | eachClose => exact misplaced_of_closeBlock .each hl (by simpa only [read, hl] using h)
  | ifClose => exact misplaced_of_closeBlock .cond hl (by simpa only [read, hl] using h)
  | otherwise => exact misplaced_of_divideBlock hl (by simpa only [read, hl] using h)

theorem read_of_closer (kind : BlockKind) (ht : t.lexeme = kind.closer) :
    d.read t = d.closeBlock kind t := by
  cases kind <;> simp [read, ht, BlockKind.closer]

theorem read_of_misplaced {cause : SyntaxError.Cause} (h : Misplaced d.openTags t cause) :
    d.read t = .error (t.fault cause) := by
  obtain ⟨body, blocks⟩ := d
  cases blocks with
  | nil =>
    cases h with
    | strayClose kind ht => rw [read_of_closer kind ht, closeBlock]
    | strayElse ht => simp [read, ht, divideBlock]
  | cons b outer =>
    obtain ⟨kind, opener, before, firstBody⟩ := b
    cases h with
    | elseInLoop ht hb =>
      obtain rfl : kind = .each := hb
      simp [read, ht, divideBlock, OpenTag.ofBlock]
    | duplicateElse ht hb hd =>
      obtain rfl : kind = .cond := hb
      obtain ⟨first, rfl⟩ := Option.isSome_iff_exists.1 hd
      simp [read, ht, divideBlock, OpenTag.ofBlock]
    | mismatchedClose other ht hb =>
      have hk : kind ≠ other := hb
      rw [read_of_closer other ht]
      simp [closeBlock, hk, OpenTag.ofBlock]

/-- Closing tags for the open blocks, the innermost first, complete a draft. -/
theorem exists_closers (d : Draft) :
    ∃ us body, (∀ u ∈ us, u.lexeme ≠ .finish) ∧ d.readAll us = .ok ⟨body, []⟩ := by
  obtain ⟨body, blocks⟩ := d
  induction blocks generalizing body with
  | nil => exact ⟨[], body, by simp, rfl⟩
  | cons b outer ih =>
    obtain ⟨us, rest, hus, hread⟩ := ih (OpenBlock.node b body :: b.before)
    refine ⟨.bare b.kind.closer :: us, rest, ?_, ?_⟩
    · intro u hu
      rcases List.mem_cons.1 hu with rfl | hu
      · cases hk : b.kind <;> simp [Token.bare, BlockKind.closer]
      · exact hus u hu
    · rw [readAll_cons (.closed b rfl body outer), hread]

/-- Tokens are read without a fault exactly if some more would make them derivable. -/
theorem exists_readAll_iff (hts : ∀ t ∈ ts, t.lexeme ≠ .finish) :
    (∃ d, empty.readAll ts = .ok d) ↔ Lexeme.Extendable (ts.map Token.lexeme) := by
  constructor
  · rintro ⟨d, hd⟩
    obtain ⟨us, body, hus, hclose⟩ := exists_closers d
    have hall : ∀ t ∈ ts ++ us, t.lexeme ≠ .finish := by
      intro t ht
      rcases List.mem_append.1 ht with ht | ht
      · exact hts t ht
      · exact hus t ht
    have hwhole : Node.ofTokens (ts ++ us) = .ok body.reverse := by
      rw [ofTokens_eq_run hall]
      simp [run, readAll_append, hd, Except.bind, hclose, finish]
    refine ⟨us.map Token.lexeme, ?_⟩
    rw [← List.map_append]
    exact (Node.exists_ofTokens_iff hall).1 ⟨_, hwhole⟩
  · rintro ⟨more, hbody⟩
    have hlexemes : (ts ++ more.map Token.bare).map Token.lexeme = ts.map Token.lexeme ++ more := by
      simp [Token.bare, Function.comp_def]
    obtain ⟨ns, hns⟩ := Node.exists_spellings hbody hlexemes
    have hread := readAll_of_spellings hns empty []
    rw [List.append_nil, readAll_append] at hread
    cases hd : empty.readAll ts with
    | ok d => exact ⟨d, rfl⟩
    | error e =>
      rw [hd] at hread
      cases hread

/-- Reading ends at the first token that is refused. -/
theorem exists_split_of_readAll (h : d.readAll ts = .error e) :
    ∃ us t vs d', ts = us ++ t :: vs ∧ d.readAll us = .ok d' ∧ d'.read t = .error e := by
  induction ts generalizing d with
  | nil => cases h
  | cons t ts ih =>
    simp only [readAll] at h
    split at h
    · next e' hread =>
      obtain rfl := Except.error.inj h
      exact ⟨[], t, ts, d, rfl, rfl, hread⟩
    · next d₁ hread =>
      obtain ⟨us, u, vs, d', rfl, hus, hu⟩ := ih h
      refine ⟨t :: us, u, vs, d', rfl, ?_, hu⟩
      simpa only [readAll, hread] using hus

theorem openTags_of_readAll (hts : ∀ t ∈ ts, t.lexeme ≠ .finish) (h : empty.readAll ts = .ok d) :
    d.openTags = OpenTag.after ts := openTags_readAll hts h

end Draft

namespace Node

variable {ts : List Token} {e : SyntaxError}

theorem blockFault_of_ofTokens (hts : ∀ t ∈ ts, t.lexeme ≠ .finish)
    (h : ofTokens ts = .error e) : BlockFault ts e := by
  rw [Draft.ofTokens_eq_run hts, Draft.run] at h
  split at h
  · next e' hread =>
    obtain rfl := Except.error.inj h
    obtain ⟨us, t, vs, d, rfl, hus, ht⟩ := Draft.exists_split_of_readAll hread
    obtain ⟨cause, hcause, rfl⟩ := Draft.misplaced_of_read ht
    have hbefore : ∀ u ∈ us, u.lexeme ≠ .finish := fun u hu => hts u (by simp [hu])
    have hupto : ∀ u ∈ us ++ [t], u.lexeme ≠ .finish := by
      intro u hu
      apply hts
      rw [List.append_cons]
      exact List.mem_append_left vs hu
    rw [Draft.openTags_of_readAll hbefore hus] at hcause
    refine .misplaced rfl ((Draft.exists_readAll_iff hbefore).1 ⟨d, hus⟩) ?_ hcause
    intro hext
    obtain ⟨d', hd'⟩ := (Draft.exists_readAll_iff hupto).2 hext
    rw [Draft.readAll_append, hus] at hd'
    simp [Except.bind, Draft.readAll, ht] at hd'
  · next d hd =>
    have hopen := Draft.openTags_of_readAll hts hd
    obtain ⟨body, blocks⟩ := d
    cases blocks with
    | nil => cases h
    | cons b outer =>
      obtain rfl := Except.error.inj h
      exact .unterminated ((Draft.exists_readAll_iff hts).1 ⟨_, hd⟩) hopen.symm

theorem ofTokens_of_blockFault (hts : ∀ t ∈ ts, t.lexeme ≠ .finish) (h : BlockFault ts e) :
    ofTokens ts = .error e := by
  rw [Draft.ofTokens_eq_run hts]
  cases h with
  | @misplaced us vs t cause heq hbefore hat hcause =>
    subst heq
    have hus : ∀ u ∈ us, u.lexeme ≠ .finish := fun u hu => hts u (by simp [hu])
    obtain ⟨d, hd⟩ := (Draft.exists_readAll_iff hus).2 hbefore
    rw [← Draft.openTags_of_readAll hus hd] at hcause
    simp [Draft.run, Draft.readAll_append, hd, Except.bind, Draft.readAll,
      Draft.read_of_misplaced hcause]
  | @unterminated b outer hext hopen =>
    obtain ⟨⟨body, blocks⟩, hd⟩ := (Draft.exists_readAll_iff hts).2 hext
    rw [← Draft.openTags_of_readAll hts hd] at hopen
    cases blocks with
    | nil => cases hopen
    | cons c outer =>
      obtain ⟨rfl, -⟩ := List.cons.inj hopen
      simp [Draft.run, hd, Draft.finish, OpenTag.ofBlock]

end Node

namespace Template

/-- A source is rejected for the first fault in its tags, whatever is wrong with its blocks; if its
tags are in order, for the fault in its blocks, and for nothing else. -/
theorem parse_eq_error_iff (file : Option Text) (source : Text) (e : SyntaxError) :
    parse file source = .error e ↔
      (Scan.ofSource file source).ending = .error e ∨
        (Scan.ofSource file source).ending.isOk ∧
          BlockFault (Scan.ofSource file source).tokens e := by
  cases hend : (Scan.ofSource file source).ending with
  | error e' => simp [parse, hend, Except.isOk, Except.toBool]
  | ok last =>
    have hts : ∀ t ∈ (Scan.ofSource file source).tokens, t.lexeme ≠ .finish :=
      Scan.lexeme_ne_finish hend
    have hiff : Node.ofTokens (Scan.ofSource file source).tokens = .error e ↔
        BlockFault (Scan.ofSource file source).tokens e :=
      ⟨Node.blockFault_of_ofTokens hts, Node.ofTokens_of_blockFault hts⟩
    rw [← hiff]
    simp only [parse, hend]
    cases Node.ofTokens (Scan.ofSource file source).tokens <;>
      simp [Except.isOk, Except.toBool]

end Template
end Stencil
