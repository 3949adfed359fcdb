import Stencil.Proofs.Render.Room
import Stencil.Proofs.Template.Grammar
/-! What a render does apart from places: it depends only on what the parts of the tree ask for. -/
namespace Stencil

namespace Node

variable {ms ns : List Node}

theorem spellings_unplaced (ns : List Node) :
    spellings (unplaced ns) = ((lexemes ns).map Token.bare).map Token.mark := by
  unfold unplaced
  induction ns using forest_induction with
  | nil => rfl
  | leaf location l ns ih => simp [ih, Lexeme.endsBody]
  | each location path body ns ihb ih => simp [ihb, ih, Lexeme.endsBody]
  | cond location path body ns ihb ih => simp [ihb, ih, Lexeme.endsBody]
  | condElse location path body elseBody ns ihb ihe ih => simp [ihb, ihe, ih, Lexeme.endsBody]

/-- Trees that ask for the same differ only in their places. -/
theorem unplaced_congr (h : lexemes ms = lexemes ns) : unplaced ms = unplaced ns := by
  have hm := ofTokens_of_spellings (spellings_unplaced ms)
  have hn := ofTokens_of_spellings (spellings_unplaced ns)
  rw [h, hn] at hm
  exact (Except.ok.inj hm).symm

end Node

/-- The kind and the message of a warning, without its place. -/
def Warning.notice (w : Warning) : Text × Text := (kind, w.message)

namespace Trace

/-- Courses that write the same, give the same notices, and both fail or both succeed. -/
abbrev AlikeApart : Trace → Trace → Prop := Alike Warning.notice fun _ => ()

end Trace

namespace Render

variable {settings : Settings} {partials : Partials}

/-- What is shown of failures if not where the inclusion stands that there is no room for. -/
def HidesPlaces {β : Type} (settings : Settings) (why : RenderFailure → β) : Prop :=
  ∀ name location location',
    why (noRoom settings name location) = why (noRoom settings name location')

section HidesPlaces

variable {β : Type} {why : RenderFailure → β}

/-- Where an inclusion stands shows only in its warning, its log line, or the failure for lack of
room. -/
theorem included_alike (hwhy : HidesPlaces settings why) (room : Nat) (s : Scope) (name : Text)
    (location location' : Location) :
    Trace.Alike Warning.notice why (included settings partials room s name location)
      (included settings partials room s name location') := by
  cases h : partials.get? name with
  | none =>
    rw [included_of_missing h, included_of_missing h]
    exact ⟨rfl, rfl, rfl⟩
  | some source =>
    by_cases hs : source = []
    · subst hs
      rw [included_of_empty h, included_of_empty h]
      exact ⟨rfl, rfl, rfl⟩
    · cases room with
      | zero =>
        rw [included_zero h hs, included_zero h hs]
        exact ⟨rfl, rfl, congrArg some (hwhy name location location')⟩
      | succ room =>
        cases hparse : Template.parse (some name) source with
        | error e =>
          rw [included_malformed h hs hparse, included_malformed h hs hparse]
          exact .refl _
        | ok t =>
          rw [included_parsed h hs hparse, included_parsed h hs hparse]
          exact .refl _

theorem nodes_unplaced (hwhy : HidesPlaces settings why) (partials : Partials) (room : Nat)
    (ns : List Node) (s : Scope) :
    Trace.Alike Warning.notice why (nodes settings (included settings partials room) ns s)
      (nodes settings (included settings partials room) (Node.unplaced ns) s) := by
  refine nodes_replace Trace.compatible_alike ?_ ns s
  intro s location l
  rw [nodes_single_leaf]
  cases l with
  | inclusion name => exact included_alike hwhy room s name location .unknown
  | markdown inline path => cases inline <;> exact .refl _
  | text | value | json => exact .refl _

/-- Trees that ask for the same run alike, wherever their parts stand. -/
theorem nodes_alike_of_lexemes (hwhy : HidesPlaces settings why) {ms ns : List Node}
    (h : Node.lexemes ms = Node.lexemes ns) (room : Nat) (s : Scope) :
    Trace.Alike Warning.notice why (nodes settings (included settings partials room) ms s)
      (nodes settings (included settings partials room) ns s) := by
  have hm := nodes_unplaced hwhy partials room ms s
  rw [Node.unplaced_congr h] at hm
  exact hm.trans (nodes_unplaced hwhy partials room ns s).symm

end HidesPlaces

theorem nodes_of_lexemes {ms ns : List Node} (h : Node.lexemes ms = Node.lexemes ns) (room : Nat)
    (s : Scope) :
    Trace.AlikeApart (nodes settings (included settings partials room) ms s)
      (nodes settings (included settings partials room) ns s) :=
  nodes_alike_of_lexemes (fun _ _ _ => rfl) h room s

end Render
end Stencil
