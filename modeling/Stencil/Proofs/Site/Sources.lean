import Mathlib.Data.List.Forall2
import Stencil.Proofs.Files.Listing
import Stencil.Proofs.Mapping.Merge
import Stencil.Site.Load
/-! What is loaded from a directory of sources: every file with the suffix under a name of its own,
as templates and as partials alike, or nothing at the first entry that is at fault. -/
namespace Stencil

/-- Names with one suffix differ before it. -/
theorem FilePath.stem_injective {name name' : Text} (hsuffix : suffix name = suffix name')
    (hstem : stem name = stem name') : name = name' := by
  rw [← stem_append_suffix name, ← stem_append_suffix name', hsuffix, hstem]

namespace FileTree

variable {t : FileTree} {path : FilePath} {suffix : Text} {p : Partials} {es : List (Text × Text)}
  {f : Text × Entry} {s : Text × Bytes} {files : List (Text × Entry)} {failure : SiteFailure}
  {sources : List (Text × Text)}

/-- Sources are registered one after the other as entries of a mapping are inserted. -/
theorem registerAll_fst (p : Partials) (es : List (Text × Text)) :
    (registerAll p es).1 = p.merge ⟨es⟩ := by
  induction es generalizing p with
  | nil => rfl
  | cons e es ih => exact ih (p.insert e.1 e.2)

/-- None of them replaces another one if their names are different. -/
theorem registerAll_snd (hnew : ∀ e ∈ es, e.1 ∉ p.keys) (h : (es.map Prod.fst).Nodup) :
    (registerAll p es).2 = [] := by
  induction es generalizing p with
  | nil => rfl
  | cons e es ih =>
    obtain ⟨he, hes⟩ := List.forall_mem_cons.1 hnew
    obtain ⟨hdistinct, h⟩ := List.nodup_cons.1 h
    have hfirst : p.contains e.1 = false := by
      rw [Mapping.contains, Mapping.get?_eq_none_iff.2 he]
      rfl
    have hrest : (registerAll (p.insert e.1 e.2) es).2 = [] := by
      refine ih (fun e' he' hmem => ?_) h
      rcases Mapping.mem_keys_insert.1 hmem with heq | hmem
      · exact hdistinct (heq ▸ List.mem_map_of_mem he')
      · exact hes e' he' hmem
    simpa [registerAll, Partials.register, hfirst] using hrest

/-- An entry that is loaded as a source: a regular file whose name has the suffix. -/
def sourceFile (suffix : Text) : Text × Entry → Option (Text × Bytes)
  | (_, .directory) => none
  | (name, .file content) => if FilePath.suffix name = suffix then some (name, content) else none

/-- The source that a file is loaded as: its text, under its name without the suffix. -/
structure LoadedAs (file : Text × Bytes) (source : Text × Text) : Prop where
  name : source.1 = FilePath.stem file.1
  text : readText file.2 = .ok source.2

/-- Why a directory is not loaded: the path to one of its entries is too long, or one of its sources
is not UTF-8. -/
inductive EntryFault (directory : FilePath) (suffix : Text) : Text × Entry → SiteFailure → Prop
  | tooLong {name : Text} {e : Entry}
      (hlong : pathLimit ≤ (directory.child name).text.utf8Length) :
      EntryFault directory suffix (name, e)
        (.file (.system .nameTooLong (directory.child name).text))
  | undecodable {name : Text} {content : Bytes} {fault : Utf8.Fault}
      (hshort : (directory.child name).text.utf8Length < pathLimit)
      (hsuffix : FilePath.suffix name = suffix) (hfault : Utf8.decode content = .error fault) :
      EntryFault directory suffix (name, .file content) (.undecodable fault)

theorem sourceFile_eq_some_iff :
    sourceFile suffix f = some s ↔ f = (s.1, .file s.2) ∧ FilePath.suffix s.1 = suffix := by
  obtain ⟨name, _ | content⟩ := f
  · simp [sourceFile]
  · obtain ⟨name', content'⟩ := s
    by_cases hsuffix : FilePath.suffix name = suffix
    · simp only [sourceFile, if_pos hsuffix, Option.some.injEq, Prod.mk.injEq, Entry.file.injEq]
      exact (and_iff_left_of_imp fun h => h.1 ▸ hsuffix).symm
    · simp only [sourceFile, if_neg hsuffix, reduceCtorEq, Prod.mk.injEq, false_iff]
      rintro ⟨⟨rfl, -⟩, h⟩
      exact hsuffix h

/-- Files that are loaded from one directory do not share a name without its suffix. -/
theorem nodup_stems (h : files.Pairwise fun a b => a.1 ≠ b.1) (suffix : Text) :
    ((files.filterMap (sourceFile suffix)).map fun s => FilePath.stem s.1).Nodup := by
  refine List.pairwise_map.2 (List.pairwise_filterMap.2 (h.imp fun hne s hs s' hs' hstem => ?_))
  obtain ⟨rfl, hsuffix⟩ := sourceFile_eq_some_iff.1 hs
  obtain ⟨rfl, hsuffix'⟩ := sourceFile_eq_some_iff.1 hs'
  exact hne (FilePath.stem_injective (hsuffix.trans hsuffix'.symm) hstem)

/-- Loading fails at an entry that is at fault and goes on with what it takes from any other one. -/
theorem readSources_cons_cases (hfound : t.lookup (path.child f.1) = found (path.child f.1) f.2)
    (suffix : Text) (names : List Text) :
    (∃ failure, EntryFault path suffix f failure ∧
      t.readSources path suffix (f.1 :: names) = .error failure) ∨
    (∀ failure, ¬ EntryFault path suffix f failure) ∧ ∃ taken,
      List.Forall₂ LoadedAs (sourceFile suffix f).toList taken ∧
      t.readSources path suffix (f.1 :: names) =
        (t.readSources path suffix names).map (taken ++ ·) := by
  obtain ⟨name, e⟩ := f
  have hnothing : t.readSources path suffix names =
      (t.readSources path suffix names).map ([] ++ ·) := by
    cases t.readSources path suffix names <;> rfl
  rw [readSources, hfound, found]
  by_cases hlong : pathLimit ≤ (path.child name).text.utf8Length
  · rw [if_pos hlong]
    exact .inl ⟨_, .tooLong hlong, rfl⟩
  · rw [if_neg hlong]
    cases e with
    | directory =>
      refine .inr ⟨?_, [], .nil, hnothing⟩
      rintro _ (hlong' | _)
      exact hlong hlong'
    | file content =>
      by_cases hsuffix : FilePath.suffix name = suffix
      · simp only [hsuffix, if_true, sourceFile, Option.toList_some, readText]
        cases hdecode : Utf8.decode content with
        | error fault => exact .inl ⟨_, .undecodable (Nat.not_le.1 hlong) hsuffix hdecode, rfl⟩
        | ok text =>
          have hloaded : LoadedAs (name, content) (FilePath.stem name, text.normalizeNewlines) :=
            ⟨rfl, by simp [readText, hdecode, Except.map]⟩
          refine .inr ⟨?_, [_], .cons hloaded .nil, rfl⟩
          rintro _ (hlong' | ⟨-, -, hfault⟩)
          · exact hlong hlong'
          · cases hdecode.symm.trans hfault
      · simp only [hsuffix, if_false, sourceFile, Option.toList_none]
        refine .inr ⟨?_, [], .nil, hnothing⟩
        rintro _ (hlong' | ⟨-, hsuffix', -⟩)
        · exact hlong hlong'
        · exact hsuffix hsuffix'

/-- The sources of a directory are those of its files in order, if no entry is at fault. -/
theorem readSources_cases (hfound : ∀ f ∈ files,
      t.lookup (path.child f.1) = found (path.child f.1) f.2) (suffix : Text) :
    (∃ sources, t.readSources path suffix (files.map Prod.fst) = .ok sources ∧
      List.Forall₂ LoadedAs (files.filterMap (sourceFile suffix)) sources ∧
      ∀ f ∈ files, ∀ failure, ¬ EntryFault path suffix f failure) ∨
    ∃ before f after failure, files = before ++ f :: after ∧
      (∀ g ∈ before, ∀ failure, ¬ EntryFault path suffix g failure) ∧
      EntryFault path suffix f failure ∧
      t.readSources path suffix (files.map Prod.fst) = .error failure := by
  induction files with
  | nil => exact .inl ⟨[], rfl, .nil, nofun⟩
  | cons f files ih =>
    obtain ⟨hf, hfiles⟩ := List.forall_mem_cons.1 hfound
    rw [List.map_cons]
    rcases readSources_cons_cases hf suffix (files.map Prod.fst) with
      ⟨failure, hfault, hread⟩ | ⟨hfault, taken, htaken, hread⟩
    · exact .inr ⟨[], f, files, failure, rfl, nofun, hfault, hread⟩
    · rcases ih hfiles with ⟨sources, hrest, hloaded, hfaults⟩ |
        ⟨before, g, after, failure, rfl, hbefore, hg, hrest⟩
      · refine .inl ⟨taken ++ sources, ?_, ?_, List.forall_mem_cons.2 ⟨hfault, hfaults⟩⟩
        · rw [hread, hrest]
          rfl
        · rw [List.filterMap_eq_flatMap_toList] at hloaded ⊢
          exact List.rel_append htaken hloaded
      · refine .inr ⟨f :: before, g, after, failure, rfl, ?_, hg, ?_⟩
        · exact List.forall_mem_cons.2 ⟨hfault, hbefore⟩
        · rw [hread, hrest]
          rfl

/-- Both loaders give the same sources: those of all regular files with the suffix, in order and
each under a name of its own, so that no partial is registered twice. -/
structure LoadsAll (t : FileTree) (path : FilePath) (suffix : Text) (files : List (Text × Entry))
    (m : Mapping Text) : Prop where
  templates : t.loadTemplates path suffix = .ok m
  partials : t.loadPartials path suffix = .ok (m, [])
  distinct : m.Distinct
  sources : List.Forall₂ LoadedAs (files.filterMap (sourceFile suffix)) m.entries
  noFault : ∀ f ∈ files, ∀ failure, ¬ EntryFault path suffix f failure

/-- Both loaders fail at the first entry that is at fault, and in the same way. -/
structure FailsAt (t : FileTree) (path : FilePath) (suffix : Text) (files : List (Text × Entry))
    (f : Text × Entry) (failure : SiteFailure) : Prop where
  first : ∃ before after, files = before ++ f :: after ∧
    ∀ g ∈ before, ∀ failure, ¬ EntryFault path suffix g failure
  fault : EntryFault path suffix f failure
  templates : t.loadTemplates path suffix = .error failure
  partials : t.loadPartials path suffix = .error failure

/-- Templates and partials are loaded alike. -/
theorem loads_alike (ht : t.WellFormed) (hpath : t.lookup path = .ok (some .directory))
    (suffix : Text) : ∃ files, t.Lists (t.reach path) files ∧
      ((∃ m, t.LoadsAll path suffix files m) ∨
        ∃ f failure, t.FailsAt path suffix files f failure) := by
  obtain ⟨hleads, -⟩ := lookup_eq_some_iff.1 hpath
  have hlists := ht.lists (t.reach path)
  have hlocate : t.locate path = .ok (t.reach path) :=
    locate_eq_ok_iff.2 ⟨hleads.fits.text, hleads.fits.names, hleads.way, rfl⟩
  have hload : t.loadSources path suffix =
      (t.readSources path suffix ((t.list (t.reach path)).map Prod.fst)).map some := by
    simp only [loadSources, hpath, hlocate]
  refine ⟨t.list (t.reach path), hlists, ?_⟩
  rcases readSources_cases
      (fun f hf => ht.lookup_child hpath ((hlists.exact f.1 f.2).1 hf)) suffix with
    ⟨sources, hread, hloaded, hfaults⟩ | ⟨before, f, after, failure, hfiles, hbefore, hf, hread⟩
  · rw [hread] at hload
    have hnames : ((t.list (t.reach path)).filterMap (sourceFile suffix)).map
        (fun s => FilePath.stem s.1) = sources.map Prod.fst := by
      rw [← List.forall₂_eq_eq_eq, List.forall₂_map_left_iff, List.forall₂_map_right_iff]
      exact hloaded.imp fun _ _ h => h.name.symm
    have hdistinct : (⟨sources⟩ : Mapping Text).Distinct :=
      (congrArg List.Nodup hnames).mp (nodup_stems (hlists.ordered.imp And.right) suffix)
    refine .inl ⟨⟨sources⟩, ?_, ?_, hdistinct, hloaded, hfaults⟩
    · simp only [loadTemplates, hload, Except.map]
      exact congrArg Except.ok (Mapping.ofList_entries hdistinct)
    · simp only [loadPartials, hload, Except.map]
      refine congrArg Except.ok (Prod.ext ?_ (registerAll_snd nofun hdistinct))
      exact (registerAll_fst .empty sources).trans (Mapping.empty_merge hdistinct)
  · rw [hread] at hload
    refine .inr ⟨f, failure, ⟨before, after, hfiles, hbefore⟩, hf, ?_, ?_⟩
    · simp only [loadTemplates, hload, Except.map]
    · simp only [loadPartials, hload, Except.map]

/-- A directory in which files are written: sources beside a hidden file, a directory with the name
of a source and a file that is none. -/
def mixedTree : FileTree :=
  let empty : FileTree := ⟨["site"], [(["site"], .directory)]⟩
  let write (t : FileTree) (path : Text) (content : Bytes) := (t.writeFile (.ofText path) content).1
  let sources := (empty.makeDirectories (.ofText "src/sub.html")).1
  let sources := write (write sources "src/b.html" [98, 13, 10]) "src/a.b.html" [97]
  write (write sources "src/.html" [104]) "src/raw.txt" [255]

theorem wellFormed_mixedTree : mixedTree.WellFormed := by
  have hempty : WellFormed ⟨["site"], [(["site"], .directory)]⟩ := by decide
  have hsources := hempty.makeDirectories (.ofText "src/sub.html")
  exact (((hsources.writeFile _ _).writeFile _ _).writeFile _ _).writeFile _ _

def mixedDirectory : FilePath := .ofText "src"

theorem loads_alike_mixedTree :
    mixedTree.WellFormed ∧ mixedTree.lookup mixedDirectory = .ok (some .directory) ∧
      ∃ files, mixedTree.Lists (mixedTree.reach mixedDirectory) files ∧
        ((∃ m, mixedTree.LoadsAll mixedDirectory ".html" files m) ∨
          ∃ f failure, mixedTree.FailsAt mixedDirectory ".html" files f failure) :=
  ⟨wellFormed_mixedTree, by decide +kernel,
    loads_alike wellFormed_mixedTree (by decide +kernel) ".html"⟩

/-- A path of many names to a directory, so long that few bytes are left for a name below it. -/
def windingPath : FilePath where
  anchor := []
  names :=
    let name : Text := List.replicate 250 'n'
    (List.replicate 15 [name, parentName]).flatten ++ [name]

/-- A source with a longer name. -/
def windingTree : FileTree where
  home := []
  entries :=
    [([List.replicate 250 'n'], .directory),
      ([List.replicate 250 'n', (List.replicate 200 'a' : Text) ++ ".html"], .file [120])]

/-- A directory may fail to load though all of its sources are UTF-8. -/
theorem not_loads_alike_windingPath :
    ¬ ∀ (t : FileTree) (path : FilePath) (suffix : Text), t.WellFormed →
      t.lookup path = .ok (some .directory) → ∃ files, t.Lists (t.reach path) files ∧
        ((∃ m, t.loadTemplates path suffix = .ok m ∧ t.loadPartials path suffix = .ok (m, []) ∧
            m.Distinct ∧
            List.Forall₂ LoadedAs (files.filterMap (sourceFile suffix)) m.entries) ∨
          ∃ name content fault, (name, .file content) ∈ files ∧ FilePath.suffix name = suffix ∧
            readText content = .error fault ∧
            t.loadTemplates path suffix = .error (.undecodable fault) ∧
            t.loadPartials path suffix = .error (.undecodable fault)) := by
  intro h
  have hfails : (match windingTree.loadTemplates windingPath ".html" with
      | .error (.file _) => true
      | _ => false) = true := by
    decide +kernel
  obtain ⟨files, -, ⟨m, hm, -⟩ | ⟨name, content, fault, -, -, -, hm, -⟩⟩ :=
    h windingTree windingPath ".html" (by decide +kernel) (by decide +kernel)
  · rw [hm] at hfails
    cases hfails
  · rw [hm] at hfails
    cases hfails

end FileTree
end Stencil
