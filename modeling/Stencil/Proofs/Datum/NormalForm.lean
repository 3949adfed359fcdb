import Stencil.Proofs.Datum.Printable
/-! The plain form of a value as its normal form: it counts and prints as the value does. -/
namespace Stencil.Datum

variable {d : Datum} {ds : List Datum}

/-- Values of all kinds that hold nothing absent, at any depth and in the layers of scopes. -/
inductive NothingAbsent : Datum → Prop where
  | null : NothingAbsent .null
  | bool (b : Bool) : NothingAbsent (.bool b)
  | int (n : Int) : NothingAbsent (.int n)
  | float (x : Binary64) : NothingAbsent (.float x)
  | str (s : Text) : NothingAbsent (.str s)
  | list {items : List Datum} (elements : ∀ d ∈ items, NothingAbsent d) :
    NothingAbsent (.list items)
  | tuple {items : List Datum} (elements : ∀ d ∈ items, NothingAbsent d) :
    NothingAbsent (.tuple items)
  | mapping {m : Mapping Datum} (values : ∀ e ∈ m.entries, NothingAbsent e.2) :
    NothingAbsent (.mapping m)
  | scope {s : Scope} (values : ∀ l ∈ s, ∀ e ∈ l.data.entries, NothingAbsent e.2)
    (items : ∀ l ∈ s, ∀ loop, l.loop = some loop → NothingAbsent loop.item) :
    NothingAbsent (.scope s)

theorem NothingAbsent.holdsAbsent_plain (h : d.NothingAbsent) : d.plain.holdsAbsent = false := by
  induction h with
  | null | bool | int | float | str => rfl
  | list _ ih | tuple _ ih => exact holdsAbsent_list ih
  | mapping _ ih => exact holdsAbsent_mapping ih
  | scope _ _ ihvalues ihitems => exact holdsAbsent_scope fun l hl => ⟨ihvalues l hl, ihitems l hl⟩

theorem NothingAbsent.isPrintable (h : d.NothingAbsent) : d.isPrintable = true := by
  induction h with
  | null | bool | int | float | str => rfl
  | list _ ih | tuple _ ih => exact arePrintable_eq_true_iff.2 ih
  | mapping values =>
    rw [Datum.isPrintable, (mapping values).holdsAbsent_plain]
    rfl
  | scope values items =>
    rw [Datum.isPrintable, (scope values items).holdsAbsent_plain]
    rfl

theorem printItems_eq_map (ds : List Datum) : printItems ds = ds.map print := by
  induction ds with
  | nil => rfl
  | cons d ds ih => rw [printItems, ih, List.map_cons]

theorem print_list (items : List Datum) : (list items).print = Text.join "," (items.map print) := by
  rw [print, printItems_eq_map]

theorem print_tuple (items : List Datum) : (tuple items).print = (list items).print := rfl

/-- A plain mapping prints as its JSON, and it can be printed if nothing in it is absent. -/
theorem print_plain_of_mapping {m : Mapping Datum} (h : d.plain = .mapping m) :
    d.plain.print = Json.write .compact d.plain ∧
      d.plain.isPrintable = !d.plain.holdsAbsent := by
  have hself : (mapping m).plain = d.plain := h ▸ plain_plain d
  rw [h, print, isPrintable, hself, h]
  exact ⟨rfl, rfl⟩

theorem print_plain (d : Datum) : d.plain.print = d.print := by
  induction d using Datum.induction with
  | absent | null | bool | int | float | str => rfl
  | list items ih =>
    rw [plain_list, print_list, print_list, List.map_map]
    exact congrArg _ (List.map_congr_left ih)
  | tuple items ih =>
    rw [plain_tuple, print_tuple, print_list, print_list, List.map_map]
    exact congrArg _ (List.map_congr_left ih)
  | mapping m => exact (print_plain_of_mapping (plain_mapping m)).1
  | scope s => exact (print_plain_of_mapping (m := plainLayers s) rfl).1

theorem arePrintable_map_plain (ih : ∀ d ∈ ds, d.plain.isPrintable = d.isPrintable) :
    arePrintable (ds.map plain) = arePrintable ds := by
  rw [Bool.eq_iff_iff, arePrintable_eq_true_iff, arePrintable_eq_true_iff, List.forall_mem_map]
  exact forall₂_congr fun d hd => by rw [ih d hd]

theorem isPrintable_plain (d : Datum) : d.plain.isPrintable = d.isPrintable := by
  induction d using Datum.induction with
  | absent | null | bool | int | float | str => rfl
  | list items ih =>
    rw [plain_list]
    exact arePrintable_map_plain ih
  | tuple items ih =>
    rw [plain_tuple]
    exact arePrintable_map_plain ih
  | mapping m => exact (print_plain_of_mapping (plain_mapping m)).2
  | scope s => exact (print_plain_of_mapping (m := plainLayers s) rfl).2

theorem printed_plain (d : Datum) : d.plain.printed = d.printed := by
  rw [printed, printed, isPrintable_plain, print_plain]

/-- The plain form is a normal form. It holds no scope and no tuple, and it is the value itself exactly
if the value holds none, so that making it plain again changes nothing. It prints as the value
does, if that can be printed, as all values can that hold nothing absent; and it counts as the
value does in a condition. -/
theorem plain_normalizes (d : Datum) :
    d.plain.isPlain = true ∧ (d.isPlain = true ↔ d.plain = d) ∧ d.plain.plain = d.plain ∧
      d.plain.printed = d.printed ∧ (d.NothingAbsent → d.printed = .ok d.print) ∧
      d.plain.isTruthy = d.isTruthy :=
  ⟨isPlain_plain d, isPlain_iff, plain_plain d, printed_plain d,
    fun h => printed_eq_ok_iff.2 ⟨h.isPrintable, rfl⟩, isTruthy_plain d⟩

/-- A list of a loop's scope, whose element is a tuple with an empty scope in it. -/
def nestedScopes : Datum :=
  .list [.scope ((Scope.root ⟨[("a", .tuple [.int 1, .null])]⟩).child
    (.tuple [.bool true, .scope (Scope.root .empty)]) 0 2), .str "b"]

/-- It prints as its plain form does. -/
theorem plain_normalizes_nestedScopes :
    nestedScopes.NothingAbsent ∧ nestedScopes.printed = .ok nestedScopes.print ∧
      nestedScopes.plain.printed = .ok nestedScopes.print ∧
      nestedScopes.print = ("\x7b\"a\":[1,null],\"_value\":[true,\x7b\x7d],\"_index\":0," ++
        "\"_first\":true,\"_last\":false\x7d,b" : Text) := by
  have hroot : (Datum.scope (Scope.root .empty)).NothingAbsent := by
    refine .scope ?_ ?_ <;> simp [Scope.root, Mapping.empty]
  have hitem : (Datum.tuple [.bool true, .scope (Scope.root .empty)]).NothingAbsent :=
    .tuple (by simp [hroot, NothingAbsent.bool])
  have hpair : (Datum.tuple [.int 1, .null]).NothingAbsent :=
    .tuple (by simp [NothingAbsent.int, NothingAbsent.null])
  have hpresent : nestedScopes.NothingAbsent := by
    refine .list (List.forall_mem_cons.2 ⟨.scope ?_ ?_, List.forall_mem_cons.2 ⟨.str _, nofun⟩⟩)
    · simp [Scope.root, Scope.child, Datum.asMapping, Mapping.empty, hpair]
    · simpa [Scope.root, Scope.child] using hitem
  obtain ⟨-, -, -, hsame, hprinted, -⟩ := plain_normalizes nestedScopes
  exact ⟨hpresent, hprinted hpresent, hsame.trans (hprinted hpresent), by decide +kernel⟩

end Stencil.Datum
