import Mathlib.Logic.Relation
import Stencil.Proofs.Render.Steps
import Stencil.Proofs.Scope.Flatten
/-! Loops inside loops: what their names stand for in the innermost body, whatever the elements are. -/
namespace Stencil

/-- The scope inside loops that are nested in `s`, the innermost loop first. -/
def Scope.nest (s : Scope) : List (Loop Datum) → Scope
  | [] => s
  | l :: loops => (s.nest loops).child l.item l.index l.length

namespace Loop

/-- The path that leads `j` loops outwards and on along `names`. -/
def outwards (j : Nat) (names : List Text) : Text :=
  Text.join [↑ '.'] (List.replicate j parentKey ++ names)

/-- One of the passes over a list. -/
def IsPass (l : Loop Datum) : Prop :=
  ∃ (items : List Datum) (k : Nat),
    items[k]? = some l.item ∧ l.index = k ∧ l.length = items.length

theorem outwards_succ (j : Nat) (names : List Text) :
    outwards (j + 1) names = outwards j (parentKey :: names) := by
  rw [outwards, outwards, List.replicate_succ', List.append_assoc, List.singleton_append]

theorem get?_parentKey {outer : Scope} (houter : outer ≠ []) (l : Loop Datum) :
    l.get? outer parentKey = some (.scope outer) := by
  have hempty : outer.isEmpty = false := by simpa using houter
  show (if outer.isEmpty then none else some (Datum.scope outer)) = _
  rw [hempty]
  rfl

theorem get?_valueKey {l : Loop Datum} (hmapping : l.item.isMapping = false)
    (habsent : l.item ≠ .absent) (outer : Scope) : l.get? outer valueKey = some l.item := by
  rw [get?_eq_entries habsent (by decide), entries, entriesWith, exposesItem, hmapping]
  rfl

end Loop

namespace Scope

variable {s : Scope} {l : Loop Datum} {loops : List (Loop Datum)} {j : Nat} {key : Text} {d : Datum}

/-- A path steps along its names, from the scope on. -/
theorem resolve_join {names : List Text} (hne : names ≠ []) (hnames : ∀ n ∈ names, n ≠ [] ∧ ↑ '.' ∉ n)
    (s : Scope) :
    s.resolve (Text.join [↑ '.'] names) = names.foldl Datum.step (.scope s) := by
  have hsplit := Text.splitOn_join hne fun n hn => (hnames n hn).2
  obtain ⟨first, rest, rfl⟩ := List.exists_cons_of_ne_nil hne
  have hpath : Text.join [↑ '.'] (first :: rest) ≠ [] := by
    intro hnil
    rw [hnil] at hsplit
    obtain ⟨rfl, -⟩ := List.cons.inj hsplit
    exact (hnames [] List.mem_cons_self).1 rfl
  rw [resolve, if_neg (by simpa using hpath), hsplit]
  rfl

theorem nest_ne_nil (hs : s ≠ []) (loops : List (Loop Datum)) : s.nest loops ≠ [] := by
  cases loops with
  | nil => exact hs
  | cons l loops => exact List.cons_ne_nil _ _

/-- A loop's own names are looked up before the fields of its element. -/
theorem lookup_nest (h : l.get? (s.nest loops) key = some d) :
    (s.nest (l :: loops)).lookup key = d := by
  show (Layer.get? _ _ _).getD _ = d
  rw [Layer.get?, Option.bind_some, h]
  rfl

theorem lookup_parentKey (hs : s ≠ []) (l : Loop Datum) (loops : List (Loop Datum)) :
    (s.nest (l :: loops)).lookup Loop.parentKey = .scope (s.nest loops) :=
  lookup_nest (l.get?_parentKey (nest_ne_nil hs loops))

/-- Each step to the enclosing scope leaves one loop. -/
theorem foldl_parentKey (hs : s ≠ []) (hj : j ≤ loops.length) :
    (List.replicate j Loop.parentKey).foldl Datum.step (.scope (s.nest loops)) =
      .scope (s.nest (loops.drop j)) := by
  induction j generalizing loops with
  | zero => rfl
  | succ j ih =>
    cases loops with
    | nil => exact absurd hj (Nat.not_succ_le_zero j)
    | cons l loops =>
      have hj : j ≤ loops.length := Nat.le_of_succ_le_succ hj
      rw [List.replicate_succ, List.foldl_cons, Datum.step, lookup_parentKey hs, ih hj]
      rfl

/-- A name after `j` steps outwards is looked up in the scope around the `j` innermost loops. -/
theorem resolve_outwards (hs : s ≠ []) (hj : j ≤ loops.length) (hkey : key ≠ [] ∧ ↑ '.' ∉ key) :
    (s.nest loops).resolve (Loop.outwards j [key]) = (s.nest (loops.drop j)).lookup key := by
  have hnames : ∀ n ∈ List.replicate j Loop.parentKey ++ [key], n ≠ [] ∧ ↑ '.' ∉ n := by
    intro n hn
    rcases List.mem_append.1 hn with hn | hn
    · obtain rfl := List.eq_of_mem_replicate hn
      decide
    · obtain rfl := List.mem_singleton.1 hn
      exact hkey
  rw [Loop.outwards, resolve_join (by simp) hnames, List.foldl_append, foldl_parentKey hs hj]
  rfl

/-- So a name of a loop itself stands for what that loop gives it. -/
theorem resolve_loop (hs : s ≠ []) (hl : loops[j]? = some l) (hkey : key ≠ [] ∧ ↑ '.' ∉ key)
    (hget : l.get? (s.nest (loops.drop (j + 1))) key = some d) :
    (s.nest loops).resolve (Loop.outwards j [key]) = d := by
  obtain ⟨hlt, rfl⟩ := List.getElem?_eq_some_iff.1 hl
  rw [resolve_outwards hs (Nat.le_of_lt hlt) hkey, List.drop_eq_getElem_cons hlt]
  exact lookup_nest hget

end Scope

namespace Task

variable {settings : Settings} {partials : Partials} {t u : Task} {s : Scope}
  {loops : List (Loop Datum)}

/-- A step keeps the scope, or enters a loop inside those around it. -/
theorem Calls.exists_nest (h : Calls settings partials t u) (ht : t.scope = s.nest loops)
    (hloops : ∀ l ∈ loops, l.IsPass) :
    ∃ loops', u.scope = s.nest loops' ∧ ∀ l ∈ loops', l.IsPass := by
  cases h with
  | included => exact ⟨loops, ht, hloops⟩
  | chosen => exact ⟨loops, ht, hloops⟩
  | @looped _ k _ path _ outer items item _ hitems hitem =>
    refine ⟨⟨item, k, items.length⟩ :: loops, ?_, ?_⟩
    · exact congrArg (fun outer : Scope => outer.child item k items.length) ht
    · rintro l (_ | ⟨_, hl⟩)
      · exact ⟨items, k, hitem, rfl, rfl⟩
      · exact hloops l hl

/-- So whatever an execution comes to stands inside passes of loops that are nested in the scope in
which it began. -/
theorem exists_nest (h : Relation.ReflTransGen (Calls settings partials) t u) :
    ∃ loops, u.scope = t.scope.nest loops ∧ ∀ l ∈ loops, l.IsPass := by
  induction h with
  | refl => exact ⟨[], rfl, nofun⟩
  | tail _ hcall ih =>
    obtain ⟨loops, hscope, hloops⟩ := ih
    exact hcall.exists_nest hscope hloops

end Task

namespace Scope

/-- The names of each loop around a body can be reached, and data cannot stand in for them. In the body
of the innermost of the loops that are nested in a scope, the path of `j` steps outwards and a name
stands for the index of loop `j`, for whether this is the first or the last pass, or for the
element, if it is not a mapping; and the path of as many steps as there are loops stands for the scope
around them all. Every body is executed inside such a nest of passes. -/
theorem loop_names_resolve (s : Scope) (hs : s ≠ []) :
    (∀ (loops : List (Loop Datum)) (j : Nat) (l : Loop Datum), loops[j]? = some l →
      (s.nest loops).resolve (Loop.outwards j [Loop.indexKey]) = .int l.index ∧
      (s.nest loops).resolve (Loop.outwards j [Loop.firstKey]) = .bool (l.index = 0) ∧
      (s.nest loops).resolve (Loop.outwards j [Loop.lastKey]) = .bool (l.index = l.length - 1) ∧
      (l.item.isMapping = false → l.item ≠ .absent →
        (s.nest loops).resolve (Loop.outwards j [Loop.valueKey]) = l.item)) ∧
    (∀ loops : List (Loop Datum), loops ≠ [] →
      (s.nest loops).resolve (Loop.outwards loops.length []) = .scope s) ∧
    ∀ (settings : Settings) (partials : Partials) (t u : Task), t.scope = s →
      Relation.ReflTransGen (Task.Calls settings partials) t u →
      ∃ loops, u.scope = s.nest loops ∧ ∀ l ∈ loops, l.IsPass := by
  refine ⟨?_, ?_, ?_⟩
  · intro loops j l hl
    refine ⟨resolve_loop hs hl (by decide) rfl, resolve_loop hs hl (by decide) rfl,
      resolve_loop hs hl (by decide) rfl, ?_⟩
    intro hmapping habsent
    exact resolve_loop hs hl (by decide) (Loop.get?_valueKey hmapping habsent _)
  · intro loops hloops
    obtain ⟨j, hj⟩ := Nat.exists_eq_succ_of_ne_zero (mt List.length_eq_zero_iff.1 hloops)
    have hlt : j < loops.length := by omega
    rw [hj, Loop.outwards_succ, resolve_loop hs (List.getElem?_eq_getElem hlt) (by decide)
      (loops[j].get?_parentKey (nest_ne_nil hs _)), List.drop_eq_nil_of_le (Nat.le_of_eq hj)]
    rfl
  · rintro settings partials t u rfl h
    exact Task.exists_nest h

/-- A loop over mappings whose fields are named like the names of a loop, inside a loop over text. -/
def spoofingLoops : List (Loop Datum) :=
  [⟨.mapping ⟨[("_index", .str "x"), ("_parent", .str "y"), ("_value", .null)]⟩, 1, 2⟩,
    ⟨.str "z", 0, 1⟩]

/-- The mapping's fields are not asked, and neither are those around the loops. -/
theorem loop_names_resolve_spoofingLoops :
    let s := root ⟨[("_index", .str "w"), ("_parent", .null)]⟩
    s ≠ [] ∧ spoofingLoops ≠ [] ∧ (s.nest spoofingLoops).resolve "_index" = .int 1 ∧
      (s.nest spoofingLoops).resolve "_last" = .bool true ∧
      (s.nest spoofingLoops).resolve "_parent._first" = .bool true ∧
      (s.nest spoofingLoops).resolve "_parent._value" = .str "z" ∧
      (s.nest spoofingLoops).resolve "_parent._parent" = .scope s := by
  intro s
  have hs : s ≠ [] := List.cons_ne_nil _ _
  have hloops : spoofingLoops ≠ [] := List.cons_ne_nil _ _
  obtain ⟨hnames, haround, -⟩ := loop_names_resolve s hs
  obtain ⟨hindex, -, hlast, -⟩ := hnames spoofingLoops 0 _ rfl
  obtain ⟨-, hfirst, -, hvalue⟩ := hnames spoofingLoops 1 _ rfl
  exact ⟨hs, hloops, hindex, hlast, hfirst, hvalue rfl nofun, haround spoofingLoops hloops⟩

end Scope
end Stencil
