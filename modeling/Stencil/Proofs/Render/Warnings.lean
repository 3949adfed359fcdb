import Stencil.Proofs.Render.Visits
import Stencil.Proofs.Template.FaultPlace
import Stencil.Proofs.Template.Grammar
/-! The warnings of a render: one for each inclusion of a missing partial that is executed, at its
place in the source that holds it, and one line of the log for each if the settings ask for them. -/
namespace Stencil

/-- The settings with another answer to whether missing partials are logged. -/
def Settings.withLog (settings : Settings) (logsMissing : Datum) : Settings :=
  { settings with logsMissing }

/-- A source that an execution takes nodes from: its own, whose name is `file`, or that of a
registered partial whose inclusion it comes to. -/
inductive Execution.TakesFrom (partials : Partials) (file : Option Text) (source : Text)
    (e : Execution) : Option Text → Text → Prop
  | own : TakesFrom partials file source e file source
  | included {depth : Nat} {location : Location} {name held : Text}
      (hvisit : ⟨depth, .leaf location (.inclusion name)⟩ ∈ e.visits)
      (hsource : partials.get? name = some held) :
      TakesFrom partials file source e (some name) held

namespace Warning

/-- The line that a warning leaves in the log. -/
def logLine (w : Warning) : LogLine :=
  ⟨.warning, loggerNamed "renderer", w.message ++ " (" ++ w.location.text ++ ")"⟩

/-- A warning about a tag of a source: its location is the stretch of a tag that the scan of the
source comes to and that asks for the inclusion of the missing name. -/
structure IsAboutTagOf (w : Warning) (source : Text) : Prop where
  tag : Piece.TagAt source w.location.start.offset
  position : w.location.start = .ofOffset source w.location.start.offset
  slice : ∃ content, source.extract w.location.start.offset w.location.stop = tagOf content ∧
    Lexeme.ofContent content.strip = .leaf (.inclusion w.name)

end Warning

variable {settings settings' : Settings} {partials : Partials} {file : Option Text} {source : Text}
  {t u : Task} {ts : List Task} {e : Execution}

namespace Node

variable {n : Node} {ns : List Node}

theorem spelling_subset (h : n ∈ ns) : spelling n ⊆ spellings ns := by
  obtain ⟨before, after, rfl⟩ := List.append_of_mem h
  rw [spellings_append, spellings]
  intro m hm
  exact List.mem_append_right _ (List.mem_append_left _ hm)

end Node

namespace Task

/-- A task whose node is a part of the tree of a source that the execution takes nodes from. -/
def TakenFrom (partials : Partials) (file : Option Text) (source : Text) (e : Execution) (t : Task) :
    Prop :=
  ∃ name held u, e.TakesFrom partials file source name held ∧ Template.parse name held = .ok u ∧
    Node.spelling t.visit.node ⊆ Node.spellings u.nodes

/-- What a task calls for is a part of its node, or of the tree of the partial that it includes. -/
theorem Calls.takenFrom (hcalls : Calls settings partials t u)
    (h : t.TakenFrom partials file source e) (hvisit : t.visit ∈ e.visits) :
    u.TakenFrom partials file source e := by
  obtain ⟨name, held, v, hheld, hparse, hsub⟩ := h
  cases hcalls with
  | included hsource _ _ hincluded hn =>
    exact ⟨_, _, _, .included hvisit hsource, hincluded, Node.spelling_subset hn⟩
  | @looped depth k location path body s items item n _ _ hn =>
    refine ⟨name, held, v, hheld, hparse, fun m hm => hsub ?_⟩
    have hbody : m ∈ Node.spellings body := Node.spelling_subset hn hm
    simp [Node.spelling, hbody]
  | @chosen depth location path body elseBody s n hn =>
    refine ⟨name, held, v, hheld, hparse, fun m hm => hsub ?_⟩
    split at hn
    · have hbody : m ∈ Node.spellings body := Node.spelling_subset hn hm
      simp [Node.spelling, hbody]
    · cases elseBody with
      | none => cases hn
      | some elseBody =>
        have helse : m ∈ Node.spellings elseBody := Node.spelling_subset hn hm
        simp [Node.spelling, Node.elseSpelling, helse]

end Task

/-- So every visit of an execution is to a node of a source that it takes nodes from. -/
theorem Executes.exists_takenFrom {template : Template} {s : Scope}
    (h : Executes settings partials (Task.ofNodes 0 template.nodes s) e)
    (hparse : Template.parse file source = .ok template) :
    ∀ v ∈ e.visits, ∃ t : Task, t.TakenFrom partials file source e ∧ t.visit = v := by
  refine exists_task_of_visit (V := (· ∈ e.visits)) ?_ h ?_ fun v hv => hv
  · intro t ht hvisit u hu
    exact (Task.calls_of_step hu).takenFrom ht hvisit
  · intro t ht
    obtain ⟨n, hn, rfl⟩ := Task.mem_ofNodes ht
    exact ⟨file, source, template, .own, hparse, Node.spelling_subset hn⟩

/-- The token of a source that a leaf of its tree comes from. -/
theorem Template.exists_token_of_leaf {template : Template} {location : Location} {l : Leaf}
    (hparse : parse file source = .ok template)
    (h : ⟨.leaf l, some location⟩ ∈ Node.spellings template.nodes) :
    ∃ token ∈ (Scan.ofSource file source).tokens, token.lexeme = .leaf l ∧
      token.location = location := by
  obtain ⟨last, hend⟩ := exists_last_of_parse hparse
  rw [((parse_eq_ok_iff hend).1 hparse).2.2] at h
  obtain ⟨token, htoken, hmark⟩ := List.mem_map.1 h
  exact ⟨token, htoken, Token.mark_eq_some hmark⟩

/-- A token that asks for an inclusion is a tag of its source. -/
theorem Warning.isAboutTagOf_of_token {token : Token} {name : Text}
    (htoken : token ∈ (Scan.ofSource file source).tokens)
    (hlexeme : token.lexeme = .leaf (.inclusion name)) :
    Warning.IsAboutTagOf ⟨name, token.location⟩ source := by
  obtain ⟨before, piece, after, l, hdivide, hl, rfl⟩ := Scan.exists_piece_of_mem htoken
  obtain rfl : l = .leaf (.inclusion name) := hlexeme
  have htag : piece.opensTag = true := Piece.opensTag_of_lexeme? fun content => by simp [hl]
  refine ⟨Piece.tagAt_of_divide hdivide htag, rfl, ?_⟩
  have hsource : source =
      before.flatMap Piece.raw ++ (piece.raw ++ after.flatMap Piece.raw) := by
    rw [← List.flatMap_cons, ← List.flatMap_append, ← hdivide, Piece.flatMap_raw_divide]
  have hslice : source.extract (before.flatMap Piece.raw).length
      ((before.flatMap Piece.raw).length + piece.raw.length) = piece.raw := by
    rw [hsource]
    simp [List.extract]
  cases piece with
  | text content => cases htag
  | unclosed rest => cases hl
  | tag content =>
    refine ⟨content, hslice, ?_⟩
    simp only [Piece.lexeme?] at hl
    split at hl
    · cases hl
    · exact Option.some.inj hl

/-- The warning of a visit is about a tag of a source that the execution takes nodes from. -/
theorem Executes.isAboutTagOf {template : Template} {s : Scope} {w : Warning}
    (h : Executes settings partials (Task.ofNodes 0 template.nodes s) e)
    (hparse : Template.parse file source = .ok template)
    (hw : w ∈ e.visits.filterMap (Visit.missing? partials)) :
    ∃ held, e.TakesFrom partials file source w.location.file held ∧ w.IsAboutTagOf held := by
  obtain ⟨v, hv, hmissing⟩ := List.mem_filterMap.1 hw
  obtain ⟨t, ⟨name, held, u, hheld, hu, hsub⟩, rfl⟩ := h.exists_takenFrom hparse v hv
  unfold Visit.missing? at hmissing
  split at hmissing
  · next location missing hnode =>
    split at hmissing
    · obtain rfl := Option.some.inj hmissing
      rw [hnode] at hsub
      obtain ⟨token, htoken, hlexeme, rfl⟩ :=
        Template.exists_token_of_leaf hu (hsub List.mem_cons_self)
      refine ⟨held, ?_, Warning.isAboutTagOf_of_token htoken hlexeme⟩
      obtain ⟨_, _, _, _, _, _, rfl⟩ := Scan.exists_piece_of_mem htoken
      exact hheld
    · cases hmissing
  · cases hmissing

/-- Of what a render logs only the warnings are logged as such, each if the settings ask for it. -/
theorem Trace.filter_logs (settings : Settings) (a : Trace) :
    (a.logs settings).filter (·.level = .warning) =
      if settings.logsMissing.isVoid then [] else a.warnings.map Warning.logLine := by
  unfold logs warnings
  induction a.events with
  | nil => simp
  | cons event events ih =>
    cases event with
    | wrote text => exact ih
    | empty name location => simpa [List.filterMap_cons, Event.logLine?, Event.warning?] using ih
    | missing name location =>
      cases hvoid : settings.logsMissing.isVoid with
      | true => simpa [List.filterMap_cons, Event.logLine?, Event.warning?, hvoid] using ih
      | false =>
        simpa [List.filterMap_cons, Event.logLine?, Event.warning?, hvoid, Warning.logLine] using ih

/-- Settings under which each task does the same have the same executions. -/
theorem Executes.of_step_eq
    (hstep : ∀ t : Task, t.step settings partials = t.step settings' partials)
    (h : Executes settings partials ts e) : Executes settings' partials ts e := by
  have hown (t : Task) : t.own settings partials = t.own settings' partials := by
    rw [Task.own, hstep, Task.own]
  induction h with
  | nil => exact .nil
  | @cons t ts below after _ _ ihbelow ihafter =>
    rw [hown] at ihbelow ihafter ⊢
    rw [hstep] at ihbelow
    exact .cons ihbelow ihafter

namespace Render

/-- No step asks whether missing partials are logged. -/
theorem run_withLog (settings : Settings) (partials : Partials) (flag : Datum) (ns : List Node)
    (s : Scope) : run (settings.withLog flag) partials ns s = run settings partials ns s := by
  obtain ⟨a, ha, haRun⟩ := exists_executes_run settings partials ns s
  obtain ⟨b, hb, hbRun⟩ := exists_executes_run (settings.withLog flag) partials ns s
  have hstep (t : Task) : t.step settings partials = t.step (settings.withLog flag) partials := by
    obtain ⟨⟨depth, node⟩, s⟩ := t
    cases node with
    | each | cond => rfl
    | leaf location l =>
      cases l with
      | markdown inline path => cases inline <;> rfl
      | text | value | inclusion | json => rfl
  rw [← haRun, ← hbRun, hb.unique (ha.of_step_eq hstep)]

/-- The warnings of a render that returns are those of its execution: one for each inclusion of a
missing partial that it comes to, in that order. Each is about a tag of the template or of a partial
that is included, in a source of its name. Whether missing partials are logged changes nothing but
the log, in which the lines of warnings are those of the render's warnings or there are none. -/
theorem warnings_of_execution (settings : Settings) (partials : Partials) (file : Option Text)
    (source : Text) (context : Datum) (r : Rendering)
    (h : (renderSource settings partials file source context).result = .ok r) :
    ∃ t ex, Template.parse file source = .ok t ∧
      Executes settings partials (Task.ofNodes 0 t.nodes (Scope.ofDatum context)) ex ∧
      r.warnings = ex.visits.filterMap (Visit.missing? partials) ∧
      (∀ w ∈ r.warnings, ∃ held,
        ex.TakesFrom partials file source w.location.file held ∧ w.IsAboutTagOf held) ∧
      ∀ flag, (renderSource (settings.withLog flag) partials file source context).result = .ok r ∧
        (renderSource (settings.withLog flag) partials file source context).logs.filter
          (·.level = .warning) = if flag.isVoid then [] else r.warnings.map Warning.logLine := by
  cases hparse : Template.parse file source with
  | error e => simp [renderSource, hparse] at h
  | ok t =>
    obtain ⟨ex, hex, htrace⟩ := exists_executes_run settings partials t.nodes (Scope.ofDatum context)
    have hresult : (Outcome.ofTrace settings ex.trace).result = .ok r := by
      rw [htrace]
      simpa only [renderSource, hparse, Template.render] using h
    have hwarnings : r.warnings = ex.trace.warnings := by
      simp only [Outcome.ofTrace] at hresult
      split at hresult
      · cases hresult
      · rw [← Except.ok.inj hresult]
    refine ⟨t, ex, rfl, hex, hwarnings.trans hex.warnings_eq, ?_, ?_⟩
    · intro w hw
      rw [hwarnings, hex.warnings_eq] at hw
      exact hex.isAboutTagOf hparse hw
    · intro flag
      have houtcome : renderSource (settings.withLog flag) partials file source context =
          .ofTrace (settings.withLog flag) ex.trace := by
        simp only [renderSource, hparse, Template.render, run_withLog, htrace]
      rw [houtcome, hwarnings]
      exact ⟨hresult, Trace.filter_logs (settings.withLog flag) ex.trace⟩

/-- A loop over a partial that includes a missing one, a condition that does not hold around another,
an empty partial, and the other missing one again. -/
def incompletePage : Text :=
  tagOf "#each xs" ++ tagOf "> row" ++ tagOf "/each" ++ tagOf "#if no" ++ tagOf "> lost" ++
    tagOf "/if" ++ tagOf "> blank" ++ tagOf "> lost"

def incompletePartials : Partials := ⟨[("row", tagOf "> gone"), ("blank", [])]⟩

/-- One warning for each pass of the loop, at its place in the partial, and one for the last tag. -/
def incompleteWarnings : List Warning :=
  [⟨"gone", ⟨some "row", ⟨0, 1, 1⟩, 10⟩⟩, ⟨"gone", ⟨some "row", ⟨0, 1, 1⟩, 10⟩⟩,
    ⟨"lost", ⟨some "t.html", ⟨68, 1, 69⟩, 78⟩⟩]

theorem warnings_of_execution_incompletePage :
    ∃ ex : Execution, ex.visits.filterMap (Visit.missing? incompletePartials) = incompleteWarnings ∧
      (∀ w ∈ incompleteWarnings, ∃ held,
        ex.TakesFrom incompletePartials (some "t.html") incompletePage w.location.file held ∧
          w.IsAboutTagOf held) ∧
      ∀ flag, (renderSource (Settings.default.withLog flag) incompletePartials (some "t.html")
        incompletePage (.mapping ⟨[("xs", .list [.int 1, .int 2])]⟩)).logs.filter
          (·.level = .warning) =
        if flag.isVoid then [] else incompleteWarnings.map Warning.logLine := by
  have hresult : (renderSource .default incompletePartials (some "t.html") incompletePage
      (.mapping ⟨[("xs", .list [.int 1, .int 2])]⟩)).result = .ok ⟨[], incompleteWarnings⟩ := by
    decide +kernel
  obtain ⟨t, ex, -, -, hwarnings, habout, hlog⟩ := warnings_of_execution _ _ _ _ _ _ hresult
  exact ⟨ex, hwarnings.symm, habout, fun flag => (hlog flag).2⟩

end Render
end Stencil
