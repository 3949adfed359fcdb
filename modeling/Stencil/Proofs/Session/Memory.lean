import Stencil.Session
import Stencil.Proofs.Template.Scan
/-! What a session remembers: of all the steps that it has taken, an answer depends only on a few, which
are found by reading the steps backwards. -/
namespace Stencil

/-- Steps in which the settings of each stretch that is entered are left again, and no others. -/
inductive Balanced : List Step → Prop
  | nil : Balanced []
  | cons {x : Step} {xs : List Step} (henter : ∀ settings, x ≠ .enterSettings settings)
      (hexit : x ≠ .exitSettings) (h : Balanced xs) : Balanced (x :: xs)
  | stretch (settings : Settings) {xs ys : List Step} (hx : Balanced xs) (hy : Balanced ys) :
      Balanced (.enterSettings settings :: xs ++ .exitSettings :: ys)

/-- What a render answers. -/
def Outcome.answer (o : Outcome) : Reply × List LogLine :=
  match o.result with
  | .ok r => (.text r.output, o.logs)
  | .error f => (.failed f, o.logs)

/-- The warnings of a render that succeeded, otherwise those from before. -/
def Outcome.warningsOr (o : Outcome) (before : List Warning) : List Warning :=
  match o.result with
  | .ok r => r.warnings
  | .error _ => before

namespace Session

/-- The session that some steps leave. -/
def after (s : Session) (steps : List Step) : Session := steps.foldl (fun s x => (s.step x).1) s

/-! The steps taken so far are given last first, so that each of these definitions reads them
backwards. -/

/-- The partials registered since the last new collection, later sources instead of earlier ones. -/
def registered : List Step → Partials
  | [] => .empty
  | .register name source :: past => (registered past).insert name source
  | .newCollection :: _ => .empty
  | _ :: past => registered past

/-- The partials of the current renderer: what was registered when it was made, and no others. -/
def known : List Step → Partials
  | [] => .empty
  | .newRenderer :: past => registered past
  | _ :: past => known past

/-- The templates that were parsed, in order. -/
def kept : List Step → List Template
  | [] => []
  | .parse file source :: past => kept past ++ (Template.parse file source).toOption.toList
  | _ :: past => kept past

/-- The settings in force around the `n` innermost stretches. Whoever reads backwards and comes to the
end of a stretch passes over it to where it was entered. -/
def inForce : Nat → List Step → Settings
  | _, [] => .default
  | n, .exitSettings :: past => inForce (n + 1) past
  | 0, .setSettings settings :: _ => settings
  | 0, .resetSettings :: _ => .default
  | 0, .enterSettings settings :: _ => settings
  | n + 1, .enterSettings _ :: past => inForce n past
  | n, _ :: past => inForce n past

/-- The number of stretches that have been entered and not left. -/
def depth : List Step → Nat
  | [] => 0
  | .enterSettings _ :: past => depth past + 1
  | .exitSettings :: past => depth past - 1
  | _ :: past => depth past

/-- No stretch is left that has not been entered. -/
def Nested : List Step → Prop
  | [] => True
  | .exitSettings :: past => 0 < depth past ∧ Nested past
  | _ :: past => Nested past

/-- The session after the steps in `past`. -/
def left (past : List Step) : Session := start.after past.reverse

/-- The settings that are active after the steps in `past`. -/
def active (past : List Step) : Settings := (left past).settings

/-- A session that has done nothing with its renderer, which has the partials of the current one. -/
def fresh (past : List Step) : Session := { start with partials := known past, templates := kept past }

/-- What a step yields if it is a render: the same as with a fresh renderer, in a thread of its own
under the default settings and otherwise under the active ones. -/
def rendered (past : List Step) : Step → Option Outcome
  | .render input context => some ((fresh past).outcome (active past) input context)
  | .renderApart input context => some ((fresh past).outcome .default input context)
  | _ => none

/-- The warnings of the last render that succeeded since the renderer was made, in any thread. -/
def warned : List Step → List Warning
  | [] => []
  | .newRenderer :: _ => []
  | x :: past =>
    match rendered past x with
    | some o => o.warningsOr (warned past)
    | none => warned past

/-- What a session keeps to after the steps in `past`, whatever the next ones are. -/
structure RemembersOnly (past : List Step) : Prop where
  /-- A render answers what a fresh renderer would. -/
  render : ∀ x later o, rendered past x = some o →
    (start.run (past.reverse ++ x :: later))[past.length]? = some o.answer
  /-- A render that fails leaves no trace: the session is the same, and so are all later answers. -/
  failure : ∀ x later o f, rendered past x = some o → o.result = .error f →
    left (x :: past) = left past ∧
      (start.run (past.reverse ++ x :: later)).drop (past.length + 1) =
        (start.run (past.reverse ++ later)).drop past.length
  warnings : ∀ later, (start.run (past.reverse ++ .warnings :: later))[past.length]? =
    some (.warnings (warned past), [])
  /-- The active settings are those set last, stretches that have ended passed over. -/
  settings : Nested past → active past = inForce 0 past
  /-- After a stretch the settings are active that were so before it. -/
  stretch : ∀ settings steps, Balanced steps →
    ((left past).after (.enterSettings settings :: steps ++ [.exitSettings])).settings = active past

variable {s : Session} {past steps xs ys : List Step} {x : Step}

@[simp] theorem after_nil (s : Session) : s.after [] = s := rfl

@[simp] theorem after_cons (s : Session) (x : Step) (xs : List Step) :
    s.after (x :: xs) = (s.step x).1.after xs := rfl

@[simp] theorem after_append (s : Session) (xs ys : List Step) :
    s.after (xs ++ ys) = (s.after xs).after ys := List.foldl_append

theorem run_append (s : Session) (xs ys : List Step) :
    s.run (xs ++ ys) = s.run xs ++ (s.after xs).run ys := by
  induction xs generalizing s with
  | nil => rfl
  | cons x xs ih => exact congrArg (_ :: ·) (ih _)

theorem length_run (s : Session) (xs : List Step) : (s.run xs).length = xs.length := by
  induction xs generalizing s with
  | nil => rfl
  | cons x xs ih => exact congrArg (· + 1) (ih _)

/-- The answer to a step is that of the session that the steps before it leave. -/
theorem run_getElem? (past later : List Step) (x : Step) :
    (start.run (past.reverse ++ x :: later))[past.length]? =
      some ((left past).step x).2 := by
  rw [run_append, List.getElem?_append_right (by simp [length_run]), length_run,
    List.length_reverse, Nat.sub_self]
  rfl

theorem run_drop (past later : List Step) :
    (start.run (past.reverse ++ later)).drop past.length = (left past).run later := by
  rw [run_append, List.drop_append_of_le_length (by simp [length_run]), List.drop_of_length_le]
  · rfl
  · simp [length_run]

/-! What the single steps do to the parts of a session. -/

section Render

variable {o : Outcome} {f : RenderFailure}

/-- A render changes the warnings at most. -/
theorem afterRender_fst (s : Session) (o : Outcome) :
    (s.afterRender o).1 = { s with lastWarnings := o.warningsOr s.lastWarnings } := by
  unfold afterRender Outcome.warningsOr
  cases o.result <;> rfl

theorem afterRender_snd (s : Session) (o : Outcome) : (s.afterRender o).2 = o.answer := by
  unfold afterRender Outcome.answer
  cases o.result <;> rfl

theorem afterRender_of_error (h : o.result = .error f) : (s.afterRender o).1 = s := by
  simp only [afterRender, h]

end Render

/-- A template that could not be parsed is not kept. -/
theorem step_parse (s : Session) (file : Option Text) (source : Text) :
    (s.step (.parse file source)).1 =
      { s with templates := s.templates ++ (Template.parse file source).toOption.toList } := by
  simp only [step]
  cases Template.parse file source with
  | error e => simp [Except.toOption]
  | ok t => simp [Except.toOption]

/-- Settings to return to are put down and taken up at the ends of stretches only. -/
theorem step_suspended (henter : ∀ settings, x ≠ .enterSettings settings)
    (hexit : x ≠ .exitSettings) : (s.step x).1.suspended = s.suspended := by
  cases x with
  | enterSettings settings => exact absurd rfl (henter settings)
  | exitSettings => exact absurd rfl hexit
  | parse file source => rw [step_parse]
  | _ => simp [step, withSettings, afterRender_fst]

theorem step_exitSettings {settings : Settings} {suspended : List Settings}
    (h : s.suspended = settings :: suspended) :
    (s.step .exitSettings).1 = { s with settings, suspended } := by
  simp only [step, h]
  rfl

theorem left_cons (x : Step) (past : List Step) : left (x :: past) = ((left past).step x).1 := by
  simp [left]

/-- The parts of a session are what is found by reading backwards. -/
structure Recalls (past : List Step) (s : Session) : Prop where
  collected : s.collected = registered past
  partials : s.partials = known past
  templates : s.templates = kept past
  lastWarnings : s.lastWarnings = warned past

theorem Recalls.outcome_eq (h : Recalls past s) (settings : Settings) (input : RenderInput)
    (context : Datum) : s.outcome settings input context =
      (fresh past).outcome settings input context := by
  cases input with
  | source file source => simp only [outcome, fresh, h.partials]
  | kept number => simp only [outcome, fresh, h.partials, h.templates]

/-- A render with what is remembered is one with a fresh renderer. -/
theorem Recalls.step_render {o : Outcome} (h : Recalls past (left past))
    (hx : rendered past x = some o) : (left past).step x = (left past).afterRender o := by
  cases x with
  | render input context =>
    obtain rfl : _ = o := Option.some.inj hx
    simp only [step, h.outcome_eq]
    rfl
  | renderApart input context =>
    obtain rfl : _ = o := Option.some.inj hx
    simp only [step, h.outcome_eq]
  | _ => cases hx

theorem warned_cons_of_rendered {o : Outcome} (hx : rendered past x = some o) :
    warned (x :: past) = o.warningsOr (warned past) := by
  have hnew : x ≠ .newRenderer := by
    rintro rfl
    cases hx
  rw [warned.eq_3 x past hnew, hx]

theorem Recalls.of_render {o : Outcome} (h : Recalls past (left past))
    (hx : rendered past x = some o) (hcollected : registered (x :: past) = registered past)
    (hpartials : known (x :: past) = known past) (htemplates : kept (x :: past) = kept past) :
    Recalls (x :: past) (left (x :: past)) := by
  rw [left_cons, h.step_render hx, afterRender_fst]
  refine ⟨h.collected.trans hcollected.symm, h.partials.trans hpartials.symm,
    h.templates.trans htemplates.symm, ?_⟩
  rw [warned_cons_of_rendered hx, ← h.lastWarnings]

/-- What one step leaves is what is found by reading on from it. -/
theorem Recalls.step (h : Recalls past (left past)) (x : Step) :
    Recalls (x :: past) (left (x :: past)) := by
  obtain ⟨hcollected, hpartials, htemplates, hwarnings⟩ := h
  cases x with
  | render input context => exact Recalls.of_render ⟨‹_›, ‹_›, ‹_›, ‹_›⟩ rfl rfl rfl rfl
  | renderApart input context => exact Recalls.of_render ⟨‹_›, ‹_›, ‹_›, ‹_›⟩ rfl rfl rfl rfl
  | register name source =>
    rw [left_cons]
    exact ⟨congrArg (·.insert name source) hcollected, hpartials, htemplates, hwarnings⟩
  | newCollection =>
    rw [left_cons]
    exact ⟨rfl, hpartials, htemplates, hwarnings⟩
  | newRenderer =>
    rw [left_cons]
    exact ⟨hcollected, hcollected, htemplates, rfl⟩
  | parse file source =>
    rw [left_cons, step_parse]
    exact ⟨hcollected, hpartials, congrArg (· ++ _) htemplates, hwarnings⟩
  | exitSettings =>
    rw [left_cons]
    simp only [Session.step]
    split
    · exact ⟨hcollected, hpartials, htemplates, hwarnings⟩
    · exact ⟨hcollected, hpartials, htemplates, hwarnings⟩
  | inspect | warnings | markup | setSettings | resetSettings | getSettings | enterSettings =>
    rw [left_cons]
    exact ⟨hcollected, hpartials, htemplates, hwarnings⟩

theorem recalls_left (past : List Step) : Recalls past (left past) := by
  induction past with
  | nil => exact ⟨rfl, rfl, rfl, rfl⟩
  | cons x past ih => exact ih.step x

/-- The settings in force around ever more stretches, the active ones first. -/
def around (past : List Step) : List Settings := (List.range (depth past + 1)).map (inForce · past)

theorem around_eq_cons : around past =
    inForce 0 past :: (List.range (depth past)).map fun n => inForce (n + 1) past := by
  rw [around, List.range_succ_eq_map, List.map_cons, List.map_map]
  rfl

/-- The settings to return to are those around the stretches that have not ended. -/
theorem settings_left (h : Nested past) :
    (left past).settings :: (left past).suspended = around past := by
  induction past with
  | nil => rfl
  | cons x past ih =>
    rw [left_cons]
    cases x with
    | exitSettings =>
      obtain ⟨hdepth, h⟩ := h
      obtain ⟨-, hsuspended⟩ := List.cons.inj ((ih h).trans around_eq_cons)
      obtain ⟨d, hd⟩ : ∃ d, depth past = d + 1 := ⟨depth past - 1, by omega⟩
      rw [hd, List.range_succ_eq_map, List.map_cons, List.map_map] at hsuspended
      rw [step_exitSettings hsuspended, around_eq_cons, depth, hd]
      rfl
    | enterSettings settings =>
      rw [around_eq_cons]
      exact congrArg (settings :: ·) (ih h)
    | setSettings settings =>
      rw [around_eq_cons]
      exact congrArg (settings :: ·) (List.cons.inj ((ih h).trans around_eq_cons)).2
    | resetSettings =>
      rw [around_eq_cons]
      exact congrArg (Settings.default :: ·) (List.cons.inj ((ih h).trans around_eq_cons)).2
    | parse file source =>
      rw [step_parse]
      exact (ih h).trans (List.map_congr_left fun n _ => by cases n <;> rfl)
    | _ =>
      calc
        _ = (left past).settings :: (left past).suspended := by
          simp [step, withSettings, afterRender_fst]
        _ = around past := ih h
        _ = _ := List.map_congr_left fun n _ => by cases n <;> rfl

/-- A stretch leaves nothing that it has put down. -/
theorem suspended_after (h : Balanced xs) (s : Session) : (s.after xs).suspended = s.suspended := by
  induction h generalizing s with
  | nil => rfl
  | cons henter hexit _ ih => rw [after_cons, ih, step_suspended henter hexit]
  | stretch settings _ _ ihx ihy =>
    rw [List.cons_append, after_cons, after_append, after_cons, ihy, step_exitSettings (ihx _)]

theorem settings_after_stretch (h : Balanced xs) (s : Session) (settings : Settings) :
    (s.after (.enterSettings settings :: xs ++ [.exitSettings])).settings = s.settings := by
  rw [List.cons_append, after_cons, after_append, after_cons, after_nil,
    step_exitSettings (suspended_after h _)]

/-- Sessions remember what the definitions above find in their steps, and nothing else. -/
theorem remembersOnly (past : List Step) : RemembersOnly past where
  render x later o hx := by
    rw [run_getElem?]
    exact congrArg some ((recalls_left past).step_render hx ▸ afterRender_snd (left past) o)
  failure x later o f hx hf := by
    have hleft : left (x :: past) = left past := by
      rw [left_cons, (recalls_left past).step_render hx, afterRender_of_error hf]
    refine ⟨hleft, ?_⟩
    have hrun := run_drop (x :: past) later
    rw [List.reverse_cons, List.append_assoc] at hrun
    exact hrun.trans (hleft ▸ (run_drop past later).symm)
  warnings later := by
    rw [run_getElem?]
    exact congrArg (fun ws => some (Reply.warnings ws, [])) (recalls_left past).lastWarnings
  settings h := (List.cons.inj ((settings_left h).trans around_eq_cons)).1
  stretch settings steps h := settings_after_stretch h (left past) settings

/-- A partial is replaced after the renderer was made, and a render fails in a stretch in which the
settings are set as well. -/
def mixedSteps : List Step :=
  [.exitSettings, .resetSettings, .render (tagOf "/each") (.mapping ⟨[]⟩),
    .enterSettings { Settings.default with inclusionLimit := .int 0 }, .register "p" "later",
    .newRenderer, .register "p" "first"]

theorem remembersOnly_mixedSteps :
    active mixedSteps = .default ∧
      (start.run (mixedSteps.reverse ++ [.render (tagOf "> p") (.mapping ⟨[]⟩)]))[7]? =
        some (.text "first", []) := by
  obtain ⟨hrender, -, -, hsettings, -⟩ := remembersOnly mixedSteps
  have hactive : active mixedSteps = .default := hsettings ⟨by decide, trivial⟩
  have hresult : (renderSource .default (known mixedSteps) none (tagOf "> p")
      (.mapping ⟨[]⟩)).result = .ok ⟨"first", []⟩ := ok_of_toOption (by decide +kernel)
  have hlogs : (renderSource .default (known mixedSteps) none (tagOf "> p")
      (.mapping ⟨[]⟩)).logs = [] := by decide +kernel
  refine ⟨hactive, (hrender _ [] _ rfl).trans ?_⟩
  simp only [hactive, outcome, fresh, Outcome.answer, hresult, hlogs]

end Session
end Stencil
