import Mathlib.Data.List.Nodup
import Stencil.Proofs.Files.Make
/-! Trees as a file system holds them. A directory of such a tree lists each of its entries once and
in order, and an entry is found under its name below the directory. -/
namespace Stencil

namespace Text

variable {c d : CodePoint} {s t u : Text}

theorem le_cons_iff : le (c :: s) (d :: t) ↔ c.toNat < d.toNat ∨ c = d ∧ le s t := by
  simp [le]

theorem le_trans (hst : le s t) (htu : le t u) : le s u := by
  induction s generalizing t u with
  | nil => simp [le]
  | cons c s ih =>
    cases t with
    | nil => cases hst
    | cons d t =>
      cases u with
      | nil => cases htu
      | cons e u =>
        rw [le_cons_iff] at hst htu ⊢
        rcases hst with hcd | ⟨rfl, hst⟩
        · rcases htu with hde | ⟨rfl, -⟩
          · exact .inl (Nat.lt_trans hcd hde)
          · exact .inl hcd
        · exact htu.imp id fun ⟨hce, htu⟩ => ⟨hce, ih hst htu⟩

theorem le_total (s t : Text) : le s t ∨ le t s := by
  induction s generalizing t with
  | nil => simp [le]
  | cons c s ih =>
    cases t with
    | nil => simp [le]
    | cons d t =>
      simp only [le_cons_iff]
      rcases Nat.lt_trichotomy c.toNat d.toNat with hcd | hcd | hdc
      · exact .inl (.inl hcd)
      · obtain rfl := CodePoint.toNat_injective hcd
        exact (ih t).imp (fun h => .inr ⟨rfl, h⟩) fun h => .inr ⟨rfl, h⟩
      · exact .inr (.inl hdc)

theorem forall_mem_join_iff {P : CodePoint → Prop} {sep : Text} (hsep : ∀ c ∈ sep, P c)
    {ps : List Text} : (∀ c ∈ join sep ps, P c) ↔ ∀ p ∈ ps, ∀ c ∈ p, P c := by
  induction ps with
  | nil => simp [join]
  | cons p ps ih =>
    cases ps with
    | nil => simp [join]
    | cons q ps =>
      have hcut : join sep (p :: q :: ps) = p ++ sep ++ join sep (q :: ps) := rfl
      rw [hcut, List.forall_mem_append, List.forall_mem_append, ih, and_iff_left hsep,
        List.forall_mem_cons (a := p)]

end Text

/-- A path is not refused if its parts have only such characters as may stand in a path. -/
theorem FilePath.fault?_eq_none_iff_names {path : FilePath} : path.fault? = none ↔
    (∀ c ∈ path.anchor, Allowed c) ∧ ∀ name ∈ path.names, ∀ c ∈ name, Allowed c := by
  have hslash : ∀ c ∈ ("/" : Text), Allowed c := by decide
  rw [fault?_eq_none_iff, ← Text.forall_mem_join_iff hslash, ← List.forall_mem_append]
  by_cases hempty : path.anchor ++ Text.join "/" path.names = []
  · rw [text, if_pos (by simpa using hempty), hempty]
    decide
  · rw [path.text_of_ne_nil hempty]

namespace FileTree

/-- A name that an entry can have, as its directory spells it. -/
structure EntryName (name : Text) : Prop where
  ne_parent : name ≠ parentName
  allowed : ∀ c ∈ name, FilePath.Allowed c
  spelled : FilePath.spelled name = name
  length : name.utf8Length ≤ nameLimit

instance (name : Text) : Decidable (EntryName name) :=
  decidable_of_iff (name ≠ parentName ∧ (∀ c ∈ name, FilePath.Allowed c) ∧
      FilePath.spelled name = name ∧ name.utf8Length ≤ nameLimit)
    ⟨fun h => ⟨h.1, h.2.1, h.2.2.1, h.2.2.2⟩,
      fun h => ⟨h.ne_parent, h.allowed, h.spelled, h.length⟩⟩

/-- A tree that a file system can hold: no place has two entries, and all names are such as entries
can have. -/
structure WellFormed (t : FileTree) : Prop where
  distinct : (t.entries.map Prod.fst).Nodup
  home : ∀ name ∈ t.home, EntryName name
  places : ∀ p ∈ t.entries.map Prod.fst, ∀ name ∈ p, EntryName name

instance (t : FileTree) : Decidable t.WellFormed :=
  decidable_of_iff ((t.entries.map Prod.fst).Nodup ∧ (∀ name ∈ t.home, EntryName name) ∧
      ∀ p ∈ t.entries.map Prod.fst, ∀ name ∈ p, EntryName name)
    ⟨fun h => ⟨h.1, h.2.1, h.2.2⟩, fun h => ⟨h.distinct, h.home, h.places⟩⟩

variable {t : FileTree} {p : Place} {name : Text} {names : List Text} {e : Entry} {path : FilePath}
  {anchor : Text} {content : Bytes}

theorem map_fst_put (t : FileTree) (p : Place) (e : Entry) :
    (t.put p e).entries.map Prod.fst =
      if p ∈ t.entries.map Prod.fst then t.entries.map Prod.fst
      else t.entries.map Prod.fst ++ [p] := by
  have hany : (t.entries.any fun old => old.1 = p) = true ↔ p ∈ t.entries.map Prod.fst := by
    simp
  simp only [put, hany]
  split
  · rw [List.map_map]
    refine List.map_congr_left fun old _ => ?_
    by_cases hp : old.1 = p <;> simp [hp]
  · rw [List.map_append]
    rfl

theorem WellFormed.put (h : t.WellFormed) (hp : ∀ name ∈ p, EntryName name) (e : Entry) :
    (t.put p e).WellFormed := by
  refine ⟨?_, h.home, ?_⟩
  · rw [map_fst_put]
    split
    · exact h.distinct
    · next hnew => simpa using h.distinct.concat hnew
  · rw [map_fst_put]
    split
    · exact h.places
    · intro q hq
      rcases List.mem_append.1 hq with hq | hq
      · exact h.places q hq
      · exact List.mem_singleton.1 hq ▸ hp

theorem forall_mem_advance {P : Text → Prop} (hp : ∀ s ∈ p, P s)
    (hname : name ≠ parentName → P name) : ∀ s ∈ advance p name, P s := by
  unfold advance
  split
  · exact fun s hs => hp s (List.dropLast_subset p hs)
  · next hne => simpa [or_imp, forall_and] using ⟨hp, hname hne⟩

theorem forall_mem_destination {P : Text → Prop} (hp : ∀ s ∈ p, P s)
    (hnames : ∀ name ∈ names, name ≠ parentName → P name) : ∀ s ∈ destination p names, P s := by
  induction names generalizing p with
  | nil => exact hp
  | cons name names ih =>
    obtain ⟨hname, hnames⟩ := List.forall_mem_cons.1 hnames
    exact ih (forall_mem_advance hp hname) hnames

/-- A path that is looked up with success leads to a place with such names. -/
theorem WellFormed.forall_mem_reach (h : t.WellFormed) (hpath : t.Leads path) :
    ∀ name ∈ t.reach path, EntryName name := by
  obtain ⟨-, hallowed⟩ := FilePath.fault?_eq_none_iff_names.1 hpath.fits.fault
  refine forall_mem_destination ?_ fun spelling hspelling hne => ?_
  · unfold start
    split
    · exact nofun
    · exact h.home
  · have hlength := hpath.fits.names spelling hspelling
    obtain ⟨name, hname, rfl⟩ := List.mem_map.1 hspelling
    exact ⟨hne, FilePath.allowed_spelled (hallowed name hname), FilePath.spelled_spelled name,
      hlength⟩

/-- Operations that write keep a tree well-formed, also where they fail. -/
theorem WellFormed.makeOne (h : t.WellFormed) (path : FilePath) :
    (t.makeOne path).1.WellFormed := by
  unfold FileTree.makeOne
  rcases t.locate_cases path with ⟨fault, hfault⟩ | ⟨hnone, hleads, hlocate⟩ |
    ⟨hnone, -, problem, hlocate⟩
  · simpa [hfault] using h
  · simp only [hnone, hlocate]
    split
    · exact h.put (h.forall_mem_reach hleads) .directory
    · exact h
    · exact h
  · simpa [hnone, hlocate] using h

theorem WellFormed.makeFrom (h : t.WellFormed) (anchor : Text) (names : List Text) :
    (t.makeFrom anchor names).1.WellFormed := by
  induction names generalizing t with
  | nil => exact h.makeOne _
  | cons name above ih =>
    have hone := h.makeOne ⟨anchor, (name :: above).reverse⟩
    rw [FileTree.makeFrom]
    split
    · next t' _ hmissing =>
      have habove := ih (t := t') (by simpa only [hmissing] using hone)
      split
      · next t'' hmade =>
        rw [hmade] at habove
        exact habove.makeOne _
      · exact habove
    · exact hone

theorem WellFormed.makeDirectories (h : t.WellFormed) (path : FilePath) :
    (t.makeDirectories path).1.WellFormed := h.makeFrom path.anchor path.names.reverse

theorem WellFormed.writeFile (h : t.WellFormed) (path : FilePath) (content : Bytes) :
    (t.writeFile path content).1.WellFormed := by
  unfold FileTree.writeFile
  rcases t.locate_cases path with ⟨fault, hfault⟩ | ⟨hnone, hleads, hlocate⟩ |
    ⟨hnone, -, problem, hlocate⟩
  · simpa [hfault] using h
  · simp only [hnone, hlocate]
    split
    · exact h
    · exact h.put (h.forall_mem_reach hleads) (.file content)
  · simpa [hnone, hlocate] using h

theorem WellFormed.entry?_eq_some_iff (h : t.WellFormed) (hp : p ≠ []) :
    t.entry? p = some e ↔ (p, e) ∈ t.entries := by
  unfold entry?
  rw [if_neg (by simpa using hp), Option.map_eq_some_iff]
  constructor
  · rintro ⟨⟨q, e⟩, hfind, rfl⟩
    obtain rfl : q = p := by simpa using List.find?_some hfind
    exact List.mem_of_find?_eq_some hfind
  · intro hmem
    obtain ⟨before, after, heq⟩ := List.append_of_mem hmem
    have hdistinct := h.distinct
    rw [heq, List.map_append, List.nodup_append] at hdistinct
    refine ⟨(p, e), List.find?_eq_some_iff_append.2 ⟨by simp, before, after, heq, ?_⟩, rfl⟩
    intro old hold
    simpa using hdistinct.2.2 old.1 (List.mem_map_of_mem hold) p List.mem_cons_self

/-- What a directory holds: each entry once, in order of the names. -/
structure Lists (t : FileTree) (p : Place) (files : List (Text × Entry)) : Prop where
  ordered : files.Pairwise fun a b => Text.le a.1 b.1 ∧ a.1 ≠ b.1
  exact : ∀ name e, (name, e) ∈ files ↔ t.entry? (p ++ [name]) = some e

theorem childOf_eq_some_iff {place : Place} {entry : Entry} :
    childOf p (place, entry) = some (name, e) ↔ place = p ++ [name] ∧ entry = e := by
  unfold childOf
  constructor
  · intro h
    split at h
    · next last hlast =>
      obtain ⟨above, rfl⟩ := List.getLast?_eq_some_iff.1 hlast
      rw [List.dropLast_concat] at h
      split at h
      · next habove =>
        cases h
        exact ⟨habove ▸ rfl, rfl⟩
      · cases h
    · cases h
  · rintro ⟨rfl, rfl⟩
    simp

theorem mem_list_iff : (name, e) ∈ t.list p ↔ (p ++ [name], e) ∈ t.entries := by
  simp only [list, List.mem_mergeSort, List.mem_filterMap, Prod.exists, childOf_eq_some_iff]
  exact ⟨fun ⟨_, _, hmem, hplace, hentry⟩ => hplace ▸ hentry ▸ hmem,
    fun hmem => ⟨_, _, hmem, rfl, rfl⟩⟩

theorem WellFormed.lists (h : t.WellFormed) (p : Place) : t.Lists p (t.list p) := by
  have hle : (t.list p).Pairwise fun a b => Text.le a.1 b.1 := by
    refine List.pairwise_mergeSort ?_ ?_ _
    · exact fun a b c => Text.le_trans
    · exact fun a b => (Bool.or_eq_true _ _).mpr (Text.le_total a.1 b.1)
  have hne : (t.list p).Pairwise fun a b => a.1 ≠ b.1 := by
    have hplaces := List.pairwise_map.1 h.distinct
    refine ((List.mergeSort_perm _ _).pairwise_iff Ne.symm).2 (List.pairwise_filterMap.2 ?_)
    refine hplaces.imp fun hplace a ha b hb hname => hplace ?_
    rw [(childOf_eq_some_iff.1 ha).1, (childOf_eq_some_iff.1 hb).1, hname]
  refine ⟨hle.and hne, fun name e => ?_⟩
  rw [mem_list_iff, h.entry?_eq_some_iff (List.append_ne_nil_of_right_ne_nil p (by simp))]

/-- What looking up an entry gives: the entry itself, unless the path to it is too long. -/
def found (path : FilePath) (e : Entry) : Except FileError (Option Entry) :=
  if pathLimit ≤ path.text.utf8Length then .error (.system .nameTooLong path.text)
  else .ok (some e)

/-- An entry of a directory is found under its name. -/
theorem WellFormed.lookup_child (h : t.WellFormed) (hpath : t.lookup path = .ok (some .directory))
    (hentry : t.entry? (t.reach path ++ [name]) = some e) :
    t.lookup (path.child name) = found (path.child name) e := by
  obtain ⟨hleads, hdirectory⟩ := lookup_eq_some_iff.1 hpath
  have hname : EntryName name := by
    have hmem := (h.entry?_eq_some_iff (List.append_ne_nil_of_right_ne_nil _ (by simp))).1 hentry
    exact h.places _ (List.mem_map_of_mem hmem) name (List.mem_append_right _ List.mem_cons_self)
  have hchild : (path.child name).parent = path := by
    simp [FilePath.child, FilePath.parent]
  have hnames : (path.child name).entryNames = path.entryNames ++ [name] := by
    rw [FilePath.entryNames, FilePath.child, List.map_append, List.map_singleton, hname.spelled]
    rfl
  have hfault : (path.child name).fault? = none := by
    obtain ⟨hanchor, hallowed⟩ := FilePath.fault?_eq_none_iff_names.1 hleads.fits.fault
    refine FilePath.fault?_eq_none_iff_names.2 ⟨hanchor, ?_⟩
    rw [FilePath.child, List.forall_mem_append, List.forall_mem_singleton]
    exact ⟨hallowed, hname.allowed⟩
  have hreach : t.reach (path.child name) = t.reach path ++ [name] := by
    have hadvance : t.reach (path.child name) = advance (t.reach path) name := by
      rw [reach, hnames]
      exact List.foldl_concat advance _ name path.entryNames
    rw [hadvance, advance, if_neg hname.ne_parent]
  have hway : t.way (path.child name) = t.stops path := by
    rw [t.way_eq_stops_parent (by simp [FilePath.child]), hchild]
  unfold found
  split
  · next hlong =>
    simp [lookup, hfault, locate, if_pos hlong]
  · next hshort =>
    refine lookup_eq_some_iff.2 ⟨⟨⟨hfault, Nat.not_le.1 hshort, ?_⟩, ?_⟩, hreach ▸ hentry⟩
    · rw [hnames, List.forall_mem_append, List.forall_mem_singleton]
      exact ⟨hleads.fits.names, hname.length⟩
    · simpa [hway, stops, or_imp, forall_and, isDirectoryAt, hdirectory] using hleads.way

end FileTree
end Stencil
