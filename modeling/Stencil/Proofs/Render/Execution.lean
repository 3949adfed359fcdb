import Stencil.Proofs.Render.Room
/-! Renders as executions: nodes are taken up one after the other, and what a node calls for is done
before the next one. Nothing bounds an execution but the check that each inclusion makes. -/
namespace Stencil

/-- A node that an execution comes to, and the number of inclusions around it. -/
structure Visit where
  depth : Nat
  node : Node

/-- A node to be executed in a scope. -/
structure Task where
  visit : Visit
  scope : Scope

/-- What an execution comes to, and its course. -/
structure Execution where
  visits : List Visit
  trace : Trace

namespace Execution

variable {a b c : Execution}

def empty : Execution := ⟨[], .empty⟩

/-- One execution after the other; none is begun after a failure. -/
def append (a b : Execution) : Execution :=
  ⟨if a.trace.failure.isSome then a.visits else a.visits ++ b.visits, a.trace ++ b.trace⟩

instance : Append Execution := ⟨append⟩

@[simp] theorem trace_append (a b : Execution) : (a ++ b).trace = a.trace ++ b.trace := rfl

theorem append_of_failure (h : a.trace.failure.isSome) (b : Execution) : a ++ b = a := by
  show append a b = a
  rw [append, if_pos h, Trace.append_of_failure h]

theorem append_of_none (h : a.trace.failure = none) (b : Execution) :
    a ++ b = ⟨a.visits ++ b.visits, a.trace ++ b.trace⟩ := by
  show append a b = _
  simp [append, h]

theorem append_assoc (a b c : Execution) : a ++ b ++ c = a ++ (b ++ c) := by
  cases ha : a.trace.failure with
  | some f =>
    have ha : a.trace.failure.isSome := by simp [ha]
    rw [append_of_failure ha, append_of_failure ha, append_of_failure ha]
  | none =>
    cases hb : b.trace.failure with
    | some f =>
      have hab : (a ++ b).trace.failure.isSome := by
        rw [trace_append, Trace.failure_append_of_none ha, hb]
        rfl
      have hb : b.trace.failure.isSome := by simp [hb]
      rw [append_of_failure hab, append_of_failure hb]
    | none =>
      have hab : (a ++ b).trace.failure = none := by
        rw [trace_append, Trace.failure_append_of_none ha, hb]
      rw [append_of_none hab, append_of_none ha, append_of_none ha, append_of_none hb]
      simp [Trace.append_assoc]

/-- What comes after a failure does not matter. -/
theorem append_congr (h : a.trace.failure = none → b = c) : a ++ b = a ++ c := by
  cases ha : a.trace.failure with
  | some f => rw [append_of_failure (by simp [ha]), append_of_failure (by simp [ha])]
  | none => rw [h ha]

end Execution

namespace Task

/-- The tasks of some nodes in a scope. -/
def ofNodes (depth : Nat) (ns : List Node) (s : Scope) : List Task :=
  ns.map fun n => ⟨⟨depth, n⟩, s⟩

variable (settings : Settings) (partials : Partials)

/-- What an inclusion does by itself, and the tasks that it calls for. It is refused where as many
are around it as the limit allows. -/
def inclusion (depth : Nat) (s : Scope) (name : Text) (location : Location) : Trace × List Task :=
  match partials.get? name with
  | none => (.ofEvent (.missing name location), [])
  | some [] => (.ofEvent (.empty name location), [])
  | some source =>
    if settings.room ≤ depth then (.fail (Render.noRoom settings name location), [])
    else match Template.parse (some name) source with
      | .error e => (.fail (.malformed e), [])
      | .ok u => (.empty, ofNodes (depth + 1) u.nodes s)

/-- What a task does by itself, and the tasks that it calls for: a loop its body once for each
element, a condition the body that is chosen. -/
def step (t : Task) : Trace × List Task :=
  match t.visit.node with
  | .leaf location (.inclusion name) =>
    inclusion settings partials t.visit.depth t.scope name location
  | .leaf location l => (Render.leaf settings (fun _ _ _ => .empty) t.scope location l, [])
  | .each _ path body =>
    (.empty, match (t.scope.resolve path).items? with
      | none => []
      | some items =>
        (Render.passes t.scope items).flatMap fun inner => ofNodes t.visit.depth body inner)
  | .cond _ path body elseBody =>
    (.empty, ofNodes t.visit.depth
      (if (t.scope.resolve path).isTruthy then body else elseBody.getD []) t.scope)

/-- What a task does by itself, as an execution. -/
def own (t : Task) : Execution := ⟨[t.visit], (t.step settings partials).1⟩

end Task

/-- The executions of some tasks: each task in order does what it does by itself and then what it
calls for. After a failure nothing has to be executed. -/
inductive Executes (settings : Settings) (partials : Partials) : List Task → Execution → Prop
  | nil : Executes settings partials [] .empty
  | cons {t : Task} {ts : List Task} {below after : Execution}
    (hbelow : (t.own settings partials).trace.failure = none →
      Executes settings partials (t.step settings partials).2 below)
    (hafter : (t.own settings partials ++ below).trace.failure = none →
      Executes settings partials ts after) :
    Executes settings partials (t :: ts) (t.own settings partials ++ below ++ after)

namespace Executes

variable {settings settings' : Settings} {partials partials' : Partials} {t : Task}
  {ts us : List Task} {a b c : Execution}

/-- There is one execution at most. -/
theorem unique (ha : Executes settings partials ts a) (hb : Executes settings partials ts b) :
    a = b := by
  induction ha generalizing b with
  | nil =>
    cases hb
    rfl
  | @cons t ts below after _ _ ihbelow ihafter =>
    cases hb with
    | @cons _ _ below' after' hbelow' hafter' =>
      have hfront : t.own settings partials ++ below = t.own settings partials ++ below' :=
        Execution.append_congr fun h => ihbelow h (hbelow' h)
      rw [hfront] at ihafter ⊢
      exact Execution.append_congr fun h => ihafter h (hafter' h)

theorem append (ha : Executes settings partials ts a)
    (hb : a.trace.failure = none → Executes settings partials us b) :
    Executes settings partials (ts ++ us) (a ++ b) := by
  induction ha with
  | nil => exact hb rfl
  | cons hbelow hafter _ ihafter =>
    rw [Execution.append_assoc, List.cons_append]
    refine .cons hbelow fun hfront => ihafter hfront fun h => hb ?_
    rw [Execution.trace_append, Trace.failure_append_of_none hfront, h]

end Executes

/-- A property of tasks that every step passes on says how an execution can fail: as one of the
tasks that have the property. -/
theorem Executes.failure {settings : Settings} {partials : Partials} {I : Task → Prop}
    {P : RenderFailure → Prop} {ts : List Task} {e : Execution}
    (hfail : ∀ t, I t → ∀ f, (t.step settings partials).1.failure = some f → P f)
    (hnext : ∀ t, I t → ∀ u ∈ (t.step settings partials).2, I u)
    (h : Executes settings partials ts e) (hts : ∀ t ∈ ts, I t) :
    ∀ f, e.trace.failure = some f → P f := by
  induction h with
  | nil => exact nofun
  | @cons t ts below after _ _ ihbelow ihafter =>
    have ht : I t := hts t List.mem_cons_self
    intro f hf
    cases hown : (t.own settings partials).trace.failure with
    | some g =>
      have hg : f = g := by simpa [Trace.failure_append, hown] using hf.symm
      exact hg ▸ hfail t ht g hown
    | none =>
      cases hb : below.trace.failure with
      | some g =>
        have hg : f = g := by simpa [Trace.failure_append, hown, hb] using hf.symm
        exact hg ▸ ihbelow hown (hnext t ht) g hb
      | none =>
        have hfront : (t.own settings partials ++ below).trace.failure = none := by
          simp [Trace.failure_append, hown, hb]
        refine ihafter hfront (fun u hu => hts u (List.mem_cons_of_mem t hu)) f ?_
        simpa [Trace.failure_append, hown, hb] using hf

/-- Two tasks in `S` are the same node on the same level, do by themselves what is in `R`, and call
for tasks in `S` again. Courses in `R` both fail or both succeed. -/
structure Lockstep (settings settings' : Settings) (partials partials' : Partials)
    (S : Task → Task → Prop) (R : Trace → Trace → Prop) : Prop where
  compatible : Trace.Compatible R
  failure : ∀ {a b}, R a b → a.failure.isSome = b.failure.isSome
  visit : ∀ {t t'}, S t t' → t.visit = t'.visit
  own : ∀ {t t'}, S t t' → R (t.step settings partials).1 (t'.step settings' partials').1
  next : ∀ {t t'}, S t t' →
    List.Forall₂ S (t.step settings partials).2 (t'.step settings' partials').2

/-- Executions that come to the same, in courses in `R`. -/
structure Execution.Matches (R : Trace → Trace → Prop) (a b : Execution) : Prop where
  visits : a.visits = b.visits
  trace : R a.trace b.trace

section Lockstep

variable {settings settings' : Settings} {partials partials' : Partials} {S : Task → Task → Prop}
  {R : Trace → Trace → Prop} {ts ts' : List Task} {a a' b b' : Execution}

theorem Lockstep.append (hL : Lockstep settings settings' partials partials' S R)
    (ha : a.Matches R a') (hb : a.trace.failure = none → b.Matches R b') :
    (a ++ b).Matches R (a' ++ b') := by
  have hsome := hL.failure ha.trace
  cases hf : a.trace.failure with
  | some f =>
    rw [hf, Option.isSome_some] at hsome
    rw [Execution.append_of_failure (by simp [hf]), Execution.append_of_failure hsome.symm]
    exact ha
  | none =>
    have hf' : a'.trace.failure = none := by simpa [hf] using hsome.symm
    rw [Execution.append_of_none hf, Execution.append_of_none hf']
    exact ⟨by simp only [ha.visits, (hb hf).visits], hL.compatible.append ha.trace (hb hf).trace⟩

/-- Tasks in `S` are executed in the same steps. -/
theorem Lockstep.matches (hL : Lockstep settings settings' partials partials' S R)
    (h : Executes settings partials ts a) (h' : Executes settings' partials' ts' a')
    (hts : List.Forall₂ S ts ts') : a.Matches R a' := by
  induction h generalizing ts' a' with
  | nil =>
    cases hts
    cases h'
    exact ⟨rfl, hL.compatible.empty⟩
  | @cons t ts below after _ _ ihbelow ihafter =>
    cases hts with
    | @cons _ t' _ ts' ht hts =>
      cases h' with
      | @cons _ _ below' after' hbelow' hafter' =>
        have hown : (t.own settings partials).Matches R (t'.own settings' partials') :=
          ⟨by simp only [Task.own, hL.visit ht], hL.own ht⟩
        have hnone : ∀ {x x' : Execution}, x.Matches R x' → x.trace.failure = none →
            x'.trace.failure = none := by
          intro x x' hx hf
          simpa [hf] using (hL.failure hx.trace).symm
        have hfront : (t.own settings partials ++ below).Matches R
            (t'.own settings' partials' ++ below') :=
          hL.append hown fun hf => ihbelow hf (hbelow' (hnone hown hf)) (hL.next ht)
        exact hL.append hfront fun hf => ihafter hf (hafter' (hnone hfront hf)) hts

end Lockstep

/-- The course that an execution of some tasks takes. -/
def Takes (settings : Settings) (partials : Partials) (ts : List Task) (a : Trace) : Prop :=
  ∃ e, Executes settings partials ts e ∧ e.trace = a

namespace Takes

variable {settings : Settings} {partials : Partials} {t : Task} {ts us : List Task} {a b c : Trace}

theorem nil : Takes settings partials [] .empty := ⟨.empty, .nil, rfl⟩

theorem cons (hstep : (t.step settings partials).1 = a)
    (hbelow : a.failure = none → Takes settings partials (t.step settings partials).2 b)
    (hafter : Takes settings partials ts c) : Takes settings partials (t :: ts) (a ++ b ++ c) := by
  obtain ⟨after, hafter, rfl⟩ := hafter
  subst hstep
  cases ha : (t.step settings partials).1.failure with
  | some f =>
    have hnever : (t.own settings partials).trace.failure = none →
        Executes settings partials (t.step settings partials).2 ⟨[], b⟩ := by
      intro h
      rw [Task.own, ha] at h
      cases h
    exact ⟨_, .cons hnever fun _ => hafter, rfl⟩
  | none =>
    obtain ⟨below, he, rfl⟩ := hbelow ha
    exact ⟨_, .cons (fun _ => he) fun _ => hafter, rfl⟩

theorem append (ha : Takes settings partials ts a) (hb : Takes settings partials us b) :
    Takes settings partials (ts ++ us) (a ++ b) := by
  obtain ⟨e, he, rfl⟩ := ha
  obtain ⟨f, hf, rfl⟩ := hb
  exact ⟨e ++ f, he.append fun _ => hf, rfl⟩

theorem flatMap {α : Type} {f : α → List Task} {g : α → Trace} {xs : List α}
    (h : ∀ x ∈ xs, Takes settings partials (f x) (g x)) :
    Takes settings partials (xs.flatMap f) (.concat (xs.map g)) := by
  induction xs with
  | nil => exact nil
  | cons x xs ih =>
    exact (h x List.mem_cons_self).append (ih fun y hy => h y (List.mem_cons_of_mem x hy))

/-- A task that calls for nothing. -/
theorem single (hstep : t.step settings partials = (a, []))
    (hafter : Takes settings partials ts c) : Takes settings partials (t :: ts) (a ++ c) := by
  have h := cons (a := a) (b := .empty) (by rw [hstep]) (fun _ => by rw [hstep]; exact nil) hafter
  rwa [Trace.append_empty] at h

/-- A task that does nothing by itself. -/
theorem calling (hstep : t.step settings partials = (.empty, us))
    (hbelow : Takes settings partials us b) (hafter : Takes settings partials ts c) :
    Takes settings partials (t :: ts) (b ++ c) :=
  cons (a := .empty) (by rw [hstep]) (fun _ => by rw [hstep]; exact hbelow) hafter

end Takes

namespace Render

variable {settings : Settings} {partials : Partials}

/-- With `room` more levels below the `depth` ones around it, what an inclusion takes is what the
render computes, if that is so of all nodes one level further down. -/
theorem takes_inclusion {room depth : Nat} (hroom : depth + room = settings.room)
    (ih : ∀ r, room = r + 1 → ∀ ns s, Takes settings partials (Task.ofNodes (depth + 1) ns s)
      (nodes settings (included settings partials r) ns s))
    {ts : List Task} {c : Trace} (name : Text) (location : Location) (s : Scope)
    (hafter : Takes settings partials ts c) :
    Takes settings partials (⟨⟨depth, .leaf location (.inclusion name)⟩, s⟩ :: ts)
      (included settings partials room s name location ++ c) := by
  cases hp : partials.get? name with
  | none =>
    rw [included_of_missing hp]
    exact .single (by simp only [Task.step, Task.inclusion, hp]) hafter
  | some source =>
    by_cases hs : source = []
    · subst hs
      rw [included_of_empty hp]
      exact .single (by simp only [Task.step, Task.inclusion, hp]) hafter
    · obtain ⟨ch, source, rfl⟩ := List.exists_cons_of_ne_nil hs
      cases room with
      | zero =>
        rw [included_zero hp hs]
        have hfull : settings.room ≤ depth := by omega
        exact .single (by simp only [Task.step, Task.inclusion, hp, hfull, if_true]) hafter
      | succ room =>
        have hfree : ¬ settings.room ≤ depth := by omega
        cases hparse : Template.parse (some name) (ch :: source) with
        | error e =>
          rw [included_malformed hp hs hparse]
          exact .single (by simp only [Task.step, Task.inclusion, hp, hfree, if_false, hparse])
            hafter
        | ok u =>
          rw [included_parsed hp hs hparse]
          refine .calling ?_ (ih room rfl u.nodes s) hafter
          simp only [Task.step, Task.inclusion, hp, hfree, if_false, hparse]

/-- So it is then of all nodes on this level. -/
theorem takes_nodes_of_below {room depth : Nat} (hroom : depth + room = settings.room)
    (hbelow : ∀ r, room = r + 1 → ∀ ns s, Takes settings partials (Task.ofNodes (depth + 1) ns s)
      (nodes settings (included settings partials r) ns s)) (ns : List Node) (s : Scope) :
    Takes settings partials (Task.ofNodes depth ns s)
      (nodes settings (included settings partials room) ns s) := by
  induction ns using Node.forest_induction generalizing s with
  | nil => exact .nil
  | leaf location l ns ih =>
    rw [nodes_leaf]
    cases l with
    | inclusion name => exact takes_inclusion hroom hbelow name location s (ih s)
    | markdown inline path => cases inline <;> exact .single rfl (ih s)
    | text | value | json => exact .single rfl (ih s)
  | each location path body ns ihb ih =>
    rw [nodes_each]
    refine .calling rfl ?_ (ih s)
    cases (s.resolve path).items? with
    | none => exact .nil
    | some items => exact .flatMap fun inner _ => ihb inner
  | cond location path body ns ihb ih =>
    rw [nodes_cond]
    refine .calling rfl ?_ (ih s)
    cases (s.resolve path).isTruthy with
    | true => exact ihb s
    | false => exact .nil
  | condElse location path body elseBody ns ihb ihe ih =>
    rw [nodes_condElse]
    refine .calling rfl ?_ (ih s)
    cases (s.resolve path).isTruthy with
    | true => exact ihb s
    | false => exact ihe s

/-- The nodes at some depth are executed, and take the course that the render computes. -/
theorem takes_nodes (room depth : Nat) (hroom : depth + room = settings.room) (ns : List Node)
    (s : Scope) :
    Takes settings partials (Task.ofNodes depth ns s)
      (nodes settings (included settings partials room) ns s) := by
  induction room generalizing depth ns s with
  | zero => exact takes_nodes_of_below hroom nofun ns s
  | succ room ih =>
    refine takes_nodes_of_below hroom ?_ ns s
    rintro r hr ns s
    obtain rfl := Nat.succ.inj hr
    exact ih (depth + 1) (by omega) ns s

/-- Every render is an execution: there is exactly one, and it takes the course of the render. -/
theorem exists_executes_run (settings : Settings) (partials : Partials) (ns : List Node)
    (s : Scope) : ∃ e, Executes settings partials (Task.ofNodes 0 ns s) e ∧
      e.trace = run settings partials ns s :=
  takes_nodes settings.room 0 (Nat.zero_add _) ns s

end Render
end Stencil
