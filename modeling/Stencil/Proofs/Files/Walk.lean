import Stencil.Proofs.Files.Names
/-! Where a path leads: the places on its way, and when all of them can be passed. -/
namespace Stencil

namespace Text

variable {s t : Text}

theorem utf8Length_append (s t : Text) : utf8Length (s ++ t) = utf8Length s + utf8Length t := by
  simp [utf8Length, Utf8.bytes]

/-- More pieces make a longer text. -/
theorem exists_join_append (sep : Text) (ps qs : List Text) :
    ∃ rest, join sep (ps ++ qs) = join sep ps ++ rest := by
  induction ps with
  | nil => exact ⟨_, rfl⟩
  | cons p ps ih =>
    cases ps with
    | nil =>
      cases qs with
      | nil => exact ⟨[], by simp [join]⟩
      | cons q qs => exact ⟨sep ++ join sep (q :: qs), by simp [join]⟩
    | cons p' ps =>
      obtain ⟨rest, hrest⟩ := ih
      exact ⟨rest, by simp only [List.cons_append, join, List.append_assoc] at hrest ⊢; rw [hrest]⟩

end Text

namespace FilePath

variable {path : FilePath}

/-- A path that a file system can look up, if everything on its way is there. -/
structure Fits (path : FilePath) : Prop where
  fault : path.fault? = none
  text : path.text.utf8Length < FileTree.pathLimit
  names : ∀ name ∈ path.entryNames, name.utf8Length ≤ FileTree.nameLimit

theorem text_of_ne_nil (path : FilePath) (h : path.anchor ++ Text.join "/" path.names ≠ []) :
    path.text = path.anchor ++ Text.join "/" path.names := by
  rw [text, if_neg (by simpa using h)]

/-- The text of a path starts with that of the directory above it, unless that one has no name. -/
theorem text_parent (path : FilePath) :
    path.parent.text = "." ∨ ∃ rest, path.text = path.parent.text ++ rest := by
  obtain ⟨tail, htail⟩ := List.dropLast_prefix path.names
  obtain ⟨rest, hrest⟩ := Text.exists_join_append "/" path.names.dropLast tail
  rw [htail] at hrest
  by_cases hempty : path.anchor ++ Text.join "/" path.names.dropLast = []
  · exact .inl (by rw [text, parent, if_pos (by simpa using hempty)])
  · refine .inr ⟨rest, ?_⟩
    have hlonger : path.anchor ++ Text.join "/" path.names ≠ [] := by
      rw [hrest, ← List.append_assoc]
      exact List.append_ne_nil_of_left_ne_nil hempty rest
    rw [path.text_of_ne_nil hlonger, path.parent.text_of_ne_nil hempty, hrest,
      ← List.append_assoc]
    rfl

theorem entryNames_parent (path : FilePath) :
    path.parent.entryNames = path.entryNames.dropLast := List.map_dropLast

/-- A path that is not refused is below directories whose paths are not either. -/
theorem fault?_parent (h : path.fault? = none) : path.parent.fault? = none := by
  rw [fault?_eq_none_iff] at h ⊢
  rcases path.text_parent with hdot | ⟨rest, hrest⟩
  · rw [hdot]
    decide
  · exact fun p hp => h p (hrest ▸ List.mem_append_left rest hp)

/-- What fits for a path fits for the directories above it. -/
theorem Fits.parent (h : path.Fits) : path.parent.Fits := by
  refine ⟨fault?_parent h.fault, ?_, fun name hname => h.names name ?_⟩
  · rcases path.text_parent with hdot | ⟨rest, hrest⟩
    · rw [hdot]
      decide
    · have htext := h.text
      rw [hrest, Text.utf8Length_append] at htext
      omega
  · rw [entryNames_parent] at hname
    exact (List.dropLast_prefix _).subset hname

end FilePath

namespace FileTree

variable {t t' : FileTree} {p q : Place} {name : Text} {names : List Text} {e : Entry}
  {path : FilePath}

/-- Whether a regular file stands at a place. -/
def isFileAt (t : FileTree) (p : Place) : Bool :=
  match t.entry? p with
  | some (.file _) => true
  | _ => false

/-- The place that a name leads to from another one. -/
def advance (p : Place) (name : Text) : Place :=
  if name = parentName then p.dropLast else p ++ [name]

/-- The place that names lead to. -/
def destination (p : Place) (names : List Text) : Place := names.foldl advance p

/-- The places that names are looked up in. -/
def passed (p : Place) : List Text → List Place
  | [] => []
  | name :: names => p :: passed (advance p name) names

theorem passed_append (p : Place) (names more : List Text) :
    passed p (names ++ more) = passed p names ++ passed (destination p names) more := by
  induction names generalizing p with
  | nil => rfl
  | cons name names ih => simp [passed, destination, ih (advance p name)]

theorem passed_concat (p : Place) (names : List Text) (name : Text) :
    passed p (names ++ [name]) = passed p names ++ [destination p names] :=
  passed_append p names [name]

/-- A walk arrives where the names lead, if every place on the way is a directory and no name is too
long. -/
theorem walk_eq_ok_iff : t.walk p names = .ok q ↔
    (∀ s ∈ passed p names, t.isDirectoryAt s) ∧
      (∀ name ∈ names, name.utf8Length ≤ nameLimit) ∧ q = destination p names := by
  induction names generalizing p with
  | nil =>
    simp only [walk, passed, destination, Except.ok.injEq, List.not_mem_nil, false_implies,
      implies_true, true_and, List.foldl_nil]
    exact eq_comm
  | cons name names ih =>
    simp only [passed, destination, List.foldl_cons, List.forall_mem_cons]
    rw [walk]
    cases hentry : t.entry? p with
    | none => simp [isDirectoryAt, hentry]
    | some e =>
      cases e with
      | file content => simp [isDirectoryAt, hentry]
      | directory =>
        have hdirectory : t.isDirectoryAt p := by simp [isDirectoryAt, hentry]
        by_cases hlong : nameLimit < name.utf8Length
        · simp [hlong, Nat.not_le.2 hlong]
        · rw [if_neg hlong]
          refine (ih (p := advance p name)).trans ?_
          simp only [hdirectory, Nat.not_lt.1 hlong, true_and, destination]

/-- Where no file is in the way, a walk arrives or misses a directory. -/
theorem walk_of_no_file (hfile : ∀ s ∈ passed p names, t.isFileAt s = false)
    (hnames : ∀ name ∈ names, name.utf8Length ≤ nameLimit) :
    t.walk p names = .ok (destination p names) ∨ t.walk p names = .error .notFound := by
  induction names generalizing p with
  | nil => exact .inl rfl
  | cons name names ih =>
    obtain ⟨hp, hrest⟩ := List.forall_mem_cons.1 hfile
    obtain ⟨hname, hnames⟩ := List.forall_mem_cons.1 hnames
    rw [walk]
    cases hentry : t.entry? p with
    | none => exact .inr rfl
    | some e =>
      cases e with
      | file content => simp [isFileAt, hentry] at hp
      | directory =>
        rw [if_neg (Nat.not_lt.2 hname)]
        exact ih hrest hnames

/-- The place from which a path starts. -/
def start (t : FileTree) (path : FilePath) : Place := if path.isAbsolute then [] else t.home

/-- The place of a path, whether or not it can be reached. -/
def reach (t : FileTree) (path : FilePath) : Place := destination (t.start path) path.entryNames

/-- The places that have to be directories for a path to be looked up. -/
def way (t : FileTree) (path : FilePath) : List Place := passed (t.start path) path.entryNames

/-- The places that are directories once a path is made one. -/
def stops (t : FileTree) (path : FilePath) : List Place := t.way path ++ [t.reach path]

theorem reach_congr (h : t'.home = t.home) (path : FilePath) : t'.reach path = t.reach path := by
  rw [reach, start, h]
  rfl

theorem way_congr (h : t'.home = t.home) (path : FilePath) : t'.way path = t.way path := by
  rw [way, start, h]
  rfl

theorem stops_congr (h : t'.home = t.home) (path : FilePath) : t'.stops path = t.stops path := by
  rw [stops, way_congr h, reach_congr h]
  rfl

theorem way_subset_stops (t : FileTree) (path : FilePath) : t.way path ⊆ t.stops path :=
  List.subset_append_left _ _

theorem reach_mem_stops (t : FileTree) (path : FilePath) : t.reach path ∈ t.stops path :=
  List.mem_append_right _ List.mem_cons_self

/-- A path leads through the places of the one above it. -/
theorem way_eq_stops_parent (t : FileTree) (h : path.names ≠ []) :
    t.way path = t.stops path.parent := by
  obtain ⟨anchor, names⟩ := path
  obtain ⟨names, name, rfl⟩ := List.eq_nil_or_concat names |>.resolve_left h
  simp [way, stops, reach, start, FilePath.parent, FilePath.isAbsolute, FilePath.entryNames,
    passed_concat]

theorem way_subset_stops_parent (t : FileTree) (path : FilePath) :
    t.way path ⊆ t.stops path.parent := by
  by_cases h : path.names = []
  · simp [way, FilePath.entryNames, h, passed]
  · exact (t.way_eq_stops_parent h) ▸ List.Subset.refl _

theorem locate_eq_ok_iff : t.locate path = .ok q ↔
    path.text.utf8Length < pathLimit ∧ (∀ name ∈ path.entryNames, name.utf8Length ≤ nameLimit) ∧
      (∀ s ∈ t.way path, t.isDirectoryAt s) ∧ q = t.reach path := by
  unfold locate
  by_cases hlong : pathLimit ≤ path.text.utf8Length
  · simp [hlong, Nat.not_lt.2 hlong]
  · rw [if_neg hlong]
    refine walk_eq_ok_iff.trans ?_
    simp only [Nat.not_le.1 hlong, true_and, way, reach, start]
    exact and_left_comm

/-- A path that is looked up with success: it fits, and every place on its way is a directory. -/
structure Leads (t : FileTree) (path : FilePath) : Prop where
  fits : path.Fits
  way : ∀ s ∈ t.way path, t.isDirectoryAt s

/-- How a path is looked up: it may be refused before, and otherwise it is located if and only if it
leads anywhere. -/
theorem locate_cases (t : FileTree) (path : FilePath) :
    (∃ fault, path.fault? = some fault) ∨
    (path.fault? = none ∧ t.Leads path ∧ t.locate path = .ok (t.reach path)) ∨
    (path.fault? = none ∧ ¬ t.Leads path ∧ ∃ problem, t.locate path = .error problem) := by
  cases hfault : path.fault? with
  | some fault => exact .inl ⟨fault, rfl⟩
  | none =>
    cases hlocate : t.locate path with
    | ok p =>
      obtain ⟨htext, hnames, hway, rfl⟩ := locate_eq_ok_iff.1 hlocate
      exact .inr (.inl ⟨rfl, ⟨⟨hfault, htext, hnames⟩, hway⟩, rfl⟩)
    | error problem =>
      refine .inr (.inr ⟨rfl, fun h => ?_, problem, rfl⟩)
      rw [locate_eq_ok_iff.2 ⟨h.fits.text, h.fits.names, h.way, rfl⟩] at hlocate
      cases hlocate

/-- Where no file is in its way, a path that fits leads to its place or misses a directory. -/
theorem locate_of_no_file (hfits : path.Fits) (hfile : ∀ s ∈ t.way path, t.isFileAt s = false) :
    t.locate path = .ok (t.reach path) ∨ t.locate path = .error .notFound := by
  rw [locate, if_neg (Nat.not_le.2 hfits.text)]
  exact walk_of_no_file hfile hfits.names

theorem lookup_eq_some_iff : t.lookup path = .ok (some e) ↔
    t.Leads path ∧ t.entry? (t.reach path) = some e := by
  unfold lookup
  rcases t.locate_cases path with ⟨fault, hfault⟩ | ⟨hnone, hleads, hlocate⟩ |
    ⟨hnone, hnot, problem, hlocate⟩
  · rw [hfault]
    exact iff_of_false nofun fun h => nomatch hfault.symm.trans h.1.fits.fault
  · simp [hnone, hlocate, hleads]
  · simp only [hnone, Option.isSome_none, Bool.false_eq_true, if_false, hlocate, hnot, false_and,
      iff_false]
    cases problem <;> rintro ⟨⟩

end FileTree
end Stencil
