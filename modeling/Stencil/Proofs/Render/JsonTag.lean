import Stencil.Proofs.Json.Inverse
import Stencil.Proofs.Render.Compatible
import Stencil.Proofs.Template.Reachable
import Stencil.Proofs.Template.Scan
/-! What tags write of a value as JSON: a reader finds the value in it. -/
namespace Stencil

namespace Settings

variable {settings : Settings} {d : Datum} {n : Int}

theorem blank_spaces (n : Int) : (spaces n).Blank := by
  intro c hc
  rw [List.eq_of_mem_replicate hc]
  rfl

/-- An indentation that a value can be written with: none, or a number of spaces that is a signed
number of 64 bits. For text any setting will do, as it needs none. -/
inductive Indents (settings : Settings) (d : Datum) : Prop
  | none (hindent : settings.indent = .null)
  | flag {b : Bool} (hindent : settings.indent = .bool b)
  | fits {n : Int} (hindent : settings.indent = .int n) (hn : -widthBound ≤ n ∧ n < widthBound)
  | text {t : Text} (hd : d = .str t)

/-- The document for exact data is written in a layout that a reader understands. -/
theorem Indents.read_json (h : settings.Indents d) (hd : d.plain.Exact) :
    ∃ text, settings.json d.plain = .ok text ∧ Json.ReadsAs text d.plain := by
  have hwritten {layout : Json.Layout} (hlayout : settings.layout = .ok layout)
      (hblank : layout.Blank) :
      ∃ text, settings.json d.plain = .ok text ∧ Json.ReadsAs text d.plain := by
    refine ⟨_, ?_, Json.readsAs_write hblank hd⟩
    unfold json
    split
    · next t ht =>
      rw [ht]
      rfl
    · rw [hlayout]
      rfl
  cases h with
  | none hindent =>
    have hlayout : settings.layout = .ok .oneLine := by rw [layout, hindent]
    exact hwritten hlayout trivial
  | @flag b hindent =>
    have hlayout : settings.layout = .ok (spaces (if b then 1 else 0)) := by rw [layout, hindent]
    exact hwritten hlayout (blank_spaces _)
  | @fits n hindent hn =>
    have hlayout : settings.layout = .ok (spaces n) := by
      rw [layout, hindent]
      exact if_pos hn
    exact hwritten hlayout (blank_spaces n)
  | @text t ht =>
    subst ht
    have hblank : Json.Layout.compact.Blank := trivial
    exact ⟨Json.string t, rfl, Json.readsAs_write hblank hd⟩

end Settings

/-- Nodes that ask for one leaf and nothing else. -/
theorem Node.exists_of_lexemes {ns : List Node} {l : Leaf}
    (h : Node.lexemes ns = [Lexeme.leaf l]) : ∃ location, ns = [.leaf location l] := by
  obtain ⟨location, tail, rfl, htail⟩ := exists_of_lexemes_cons h
  exact ⟨location, by rw [lexemes_eq_nil_iff.1 htail]⟩

namespace Render

/-- What a tag writes wherever its path leads to a value: as a part of any template, and as all that a
template of only this tag gives. -/
structure Writes (settings : Settings) (tag : Text → Leaf) (v : Datum) (text : Text) : Prop where
  leaf (inclusion : Inclusion) (s : Scope) (location : Location) (path : Text) :
    s.resolve path = v → Render.leaf settings inclusion s location (tag path) = .wrote text
  output (partials : Partials) (file : Option Text) (source : Text) (context : Datum)
      (t : Template) (path : Text) :
    Template.parse file source = .ok t → Node.lexemes t.nodes = [.leaf (tag path)] →
    (Scope.ofDatum context).resolve path = v →
    (renderSource settings partials file source context).result = .ok ⟨text, []⟩

variable {settings : Settings} {tag : Text → Leaf} {v : Datum} {text : Text}

theorem result_ofTrace_wrote (settings : Settings) (text : Text) :
    (Outcome.ofTrace settings (.wrote text)).result = .ok ⟨text, []⟩ := by
  cases text with
  | nil => rfl
  | cons c t => simp [Outcome.ofTrace, Trace.wrote, Trace.ofEvent, Trace.output, Trace.warnings,
      Event.output, Event.warning?]

theorem writes_of_leaf (h : ∀ (inclusion : Inclusion) (s : Scope) (location : Location) (path : Text),
    s.resolve path = v → leaf settings inclusion s location (tag path) = .wrote text) :
    Writes settings tag v text := by
  refine ⟨h, fun partials file source context t path hparse honly hpath => ?_⟩
  obtain ⟨location, hnodes⟩ := Node.exists_of_lexemes honly
  rw [renderSource, hparse]
  simp only [Template.render, run_eq, hnodes, nodes_single_leaf, h _ _ _ _ hpath]
  exact result_ofTrace_wrote settings text

/-- A value without floats can be read from what is written of it: the same value as plain data, with
all names in their order. A JSON tag writes it so in every layout, and a plain tag does if it is a
mapping or a scope. -/
theorem read_back (settings : Settings) (v : Datum) (hv : v.FloatFree) :
    (settings.Indents v →
      ∃ text, Writes settings .json v text ∧ Json.ReadsAs text v.plain) ∧
    ((∃ m, v = .mapping m) ∨ (∃ s, v = .scope s) →
      Writes settings .value v v.print ∧ Json.ReadsAs v.print v.plain) := by
  have hexact := hv.exact_plain
  constructor
  · intro hindents
    obtain ⟨text, htext, hread⟩ := hindents.read_json hexact
    refine ⟨text, writes_of_leaf fun inclusion s location path hpath => ?_, hread⟩
    rw [leaf, hpath]
    split
    · exact absurd rfl hv.ne_absent
    · rw [htext]
      rfl
  · intro hrecord
    obtain ⟨hprintable, hprint⟩ :
        v.isPrintable = true ∧ v.print = Json.write .compact v.plain := by
      rcases hrecord with ⟨m, rfl⟩ | ⟨s, rfl⟩ <;>
        exact ⟨by rw [Datum.isPrintable, hexact.holdsAbsent]; rfl, rfl⟩
    have hblank : Json.Layout.compact.Blank := trivial
    refine ⟨writes_of_leaf fun inclusion s location path hpath => ?_, ?_⟩
    · rw [leaf, hpath, Datum.printed_eq_ok_iff.2 ⟨hprintable, rfl⟩]
      rfl
    · rw [hprint]
      exact Json.readsAs_write hblank hexact

/-- A pass of a loop in a scope that has the same name. -/
def layeredScope : Scope :=
  [⟨⟨[("a", .tuple [.int (-70), .str "\"\x01\\é", .list []])]⟩, some ⟨.mapping .empty, 0, 1⟩⟩,
    ⟨⟨[("b", .bool true), ("a", .null)]⟩, none⟩]

theorem floatFree_layeredScope : (Datum.scope layeredScope).FloatFree := by
  have htuple : (Datum.tuple [.int (-70), .str "\"\x01\\é", .list []]).FloatFree :=
    .tuple (List.forall_mem_cons.2 ⟨.int _, List.forall_mem_cons.2 ⟨.str _,
      List.forall_mem_singleton.2 (.list nofun)⟩⟩)
  refine .scope (List.forall_mem_cons.2 ⟨List.forall_mem_singleton.2 htuple,
    List.forall_mem_singleton.2 (List.forall_mem_cons.2 ⟨.bool true,
      List.forall_mem_singleton.2 .null⟩)⟩) (List.forall_mem_cons.2 ⟨?_,
    List.forall_mem_singleton.2 nofun⟩)
  rintro loop ⟨⟩
  exact .mapping Mapping.distinct_empty nofun

/-- All its names are read back from either tag. -/
theorem read_back_layeredScope :
    (∃ text, (renderSource { Settings.default with indent := .int 2 } .empty none (tagOf "json x")
        (.mapping ⟨[("x", .scope layeredScope)]⟩)).result = .ok ⟨text, []⟩ ∧
      Json.read none text = .ok (.mapping ⟨[("b", .bool true),
        ("a", .list [.int (-70), .str "\"\x01\\é", .list []]), ("_index", .int 0),
        ("_first", .bool true), ("_last", .bool true)]⟩)) ∧
    Json.read none (Datum.scope layeredScope).print = .ok (Datum.scope layeredScope).plain := by
  obtain ⟨hjson, hvalue⟩ := read_back { Settings.default with indent := .int 2 }
    (.scope layeredScope) floatFree_layeredScope
  obtain ⟨text, hwrites, hread⟩ := hjson (.fits rfl (by decide))
  obtain ⟨t, hparse⟩ : ∃ t, Template.parse none (tagOf "json x") = .ok t :=
    exists_ok_of_isOk (by decide +kernel)
  have honly : Node.lexemes t.nodes = ([.leaf (.json "x")] : List Lexeme) :=
    Node.lexemes_of_parsed hparse (by decide +kernel)
  exact ⟨⟨text, hwrites.output .empty none _ _ t "x" hparse honly rfl, hread.read⟩,
    (hvalue (.inr ⟨_, rfl⟩)).2.read⟩

/-- An indentation that is too wide for any text is an error as soon as a value other than text is
written. -/
theorem not_read_back_of_widthBound :
    ¬ ∀ (settings : Settings) (v : Datum), v.FloatFree →
      (settings.indent = .null ∨ ∃ n, settings.indent = .int n) →
      ∃ text, Writes settings .json v text ∧ Json.read none text = .ok v.plain := by
  intro hall
  obtain ⟨text, hwrites, -⟩ := hall { Settings.default with indent := .int Settings.widthBound }
    .null .null (.inr ⟨_, rfl⟩)
  obtain ⟨t, hparse⟩ : ∃ t, Template.parse none (tagOf "json x") = .ok t :=
    exists_ok_of_isOk (by decide +kernel)
  have honly : Node.lexemes t.nodes = ([.leaf (.json "x")] : List Lexeme) :=
    Node.lexemes_of_parsed hparse (by decide +kernel)
  have houtput := hwrites.output .empty none _ (.mapping ⟨[("x", .null)]⟩) t "x" hparse honly rfl
  have hfails : (renderSource { Settings.default with indent := .int Settings.widthBound } .empty
      none (tagOf "json x") (.mapping ⟨[("x", .null)]⟩)).result.isOk = false := by
    decide +kernel
  rw [houtput] at hfails
  cases hfails

end Render
end Stencil
