import Stencil.Proofs.Site.Isolation
/-! What keeps a build from being reported: a file that is not UTF-8, data with an integer of too many
digits, a path that is too long to be looked up, or a page whose path or text cannot be encoded. -/
namespace Stencil

/-- A failure that is not one of the site's. -/
def SiteFailure.Escapes : SiteFailure → Prop
  | .build _ => False
  | .undecodable _ | .tooManyDigits _ _ | .file _ | .unusable _ | .pathNotGiven | .workersNotGiven => True

/-- A computation that ends in such a failure. -/
def Escapes {α : Type} (x : Except SiteFailure α) : Prop := ∃ f, x = .error f ∧ f.Escapes

section

variable {α β : Type} {x : Except SiteFailure α}

@[simp] theorem not_escapes_ok (a : α) : ¬ Escapes (.ok a) := nofun

@[simp] theorem escapes_error_iff {f : SiteFailure} :
    Escapes (.error f : Except SiteFailure α) ↔ f.Escapes := by
  simp [Escapes]

@[simp] theorem not_escapes_build (e : BuildError) : ¬ (SiteFailure.build e).Escapes := id

/-- The first part that escapes is the end. -/
theorem escapes_bind_iff {g : α → Except SiteFailure β} :
    Escapes (x >>= g) ↔ Escapes x ∨ ∃ a, x = .ok a ∧ Escapes (g a) := by
  cases x with
  | error f => simp [bind, Except.bind]
  | ok a => simp [bind, Except.bind]

theorem escapes_map_iff {g : α → β} : Escapes (x.map g) ↔ Escapes x := by
  cases x <;> simp [Except.map]

end

/-- Contents that are not UTF-8. -/
def Undecodable (content : Bytes) : Prop := ∃ fault, Utf8.decode content = .error fault

theorem exists_readText_error_iff {content : Bytes} :
    (∃ fault, readText content = .error fault) ↔ Undecodable content := by
  unfold readText Undecodable
  cases Utf8.decode content <;> simp [Except.map]

/-- Contents that a reader of data leaves off at an integer of too many digits. -/
def TooManyDigits (content : Bytes) : Prop := ∃ text limit count, readText content = .ok text ∧
  Json.read (some Text.digitLimit) text = .error (.tooManyDigits limit count)

namespace FileTree

/-- A path that cannot be looked up, as it has too many bytes or one of its names has. -/
def TooLong (t : FileTree) (path : FilePath) : Prop :=
  path.fault? = none ∧ t.locate path = .error .nameTooLong

/-- A data file that cannot be read although it may be there. -/
def DataUnreadable (t : FileTree) (path : FilePath) : Prop :=
  t.TooLong path ∨ ∃ content, t.lookup path = .ok (some (.file content)) ∧
    (Undecodable content ∨ TooManyDigits content)

/-- A file of a directory that has the suffix and is not UTF-8. -/
def UndecodableSource (t : FileTree) (directory : FilePath) (suffix name : Text) : Prop :=
  FilePath.suffix name = suffix ∧
    ∃ content, t.lookup (directory.child name) = .ok (some (.file content)) ∧ Undecodable content

/-- A directory of sources that cannot be read. Only the files with the suffix are, but all of its
entries are looked up. -/
def SourcesUnreadable (t : FileTree) (path : FilePath) (suffix : Text) : Prop :=
  t.TooLong path ∨ t.lookup path = .ok (some .directory) ∧
    ∃ p, t.locate path = .ok p ∧ ∃ name ∈ (t.list p).map Prod.fst,
      t.TooLong (path.child name) ∨ t.UndecodableSource path suffix name

variable {t : FileTree} {path : FilePath} {suffix : Text} {names : List Text}

theorem exists_lookup_error_iff : (∃ e, t.lookup path = .error e) ↔ t.TooLong path := by
  unfold lookup TooLong
  cases hfault : path.fault? with
  | some fault => simp
  | none =>
    cases t.locate path with
    | ok p => simp
    | error problem => cases problem <;> simp

/-- The data are read or the site is at fault, unless they cannot be read. -/
theorem escapes_loadData_iff : Escapes (t.loadData path) ↔ t.DataUnreadable path := by
  rw [DataUnreadable, ← exists_lookup_error_iff]
  unfold loadData
  rcases t.lookup path with e | (_ | _ | content)
  · simp [SiteFailure.Escapes]
  · simp
  · simp
  · simp only [reduceCtorEq, exists_false, false_or, Except.ok.injEq, Option.some.injEq,
      Entry.file.injEq, exists_eq_left', ← exists_readText_error_iff, TooManyDigits]
    cases readText content with
    | error fault => simp [SiteFailure.Escapes]
    | ok text =>
      simp only [reduceCtorEq, exists_false, false_or, Except.ok.injEq, exists_and_left,
        exists_eq_left']
      rcases Json.read (some Text.digitLimit) text with (fault | ⟨limit, count⟩) | d
      · simp
      · simp [SiteFailure.Escapes]
      · cases d with
        | mapping data =>
          dsimp only
          split <;> simp
        | absent | null | bool | int | float | str | list | tuple | scope => simp

theorem escapes_readSources_iff : Escapes (t.readSources path suffix names) ↔
    ∃ name ∈ names, t.TooLong (path.child name) ∨ t.UndecodableSource path suffix name := by
  induction names with
  | nil => simp [readSources]
  | cons name names ih =>
    rw [List.exists_mem_cons_iff, ← ih, ← exists_lookup_error_iff]
    rw [readSources, UndecodableSource]
    rcases hlookup : t.lookup (path.child name) with e | (_ | _ | content)
    · simp [SiteFailure.Escapes]
    · simp
    · simp
    · by_cases hsuffix : FilePath.suffix name = suffix
      · simp only [hsuffix, if_true, true_and, reduceCtorEq, exists_false, false_or, Except.ok.injEq,
          Option.some.injEq, Entry.file.injEq, exists_eq_left', ← exists_readText_error_iff]
        cases readText content with
        | error fault => simp [SiteFailure.Escapes]
        | ok text => simp [escapes_map_iff]
      · simp [hsuffix]

theorem escapes_loadSources_iff :
    Escapes (t.loadSources path suffix) ↔ t.SourcesUnreadable path suffix := by
  rw [SourcesUnreadable, ← exists_lookup_error_iff]
  unfold loadSources
  rcases t.lookup path with e | (_ | _ | content)
  · simp [SiteFailure.Escapes]
  · simp
  · cases t.locate path with
    | error problem => simp
    | ok p => simp [escapes_map_iff, escapes_readSources_iff]
  · simp

theorem escapes_loadTemplates_iff :
    Escapes (t.loadTemplates path suffix) ↔ t.SourcesUnreadable path suffix := by
  rw [← escapes_loadSources_iff]
  unfold loadTemplates
  rcases t.loadSources path suffix with f | (_ | sources) <;> simp

theorem escapes_loadPartials_iff :
    Escapes (t.loadPartials path suffix) ↔ t.SourcesUnreadable path suffix := by
  rw [← escapes_loadSources_iff]
  unfold loadPartials
  rcases t.loadSources path suffix with f | (_ | sources) <;> simp

end FileTree

/-- A page that ends the build: it is rendered, and then it is not the file system that refuses it, but
its path or its text cannot be encoded. -/
def PageEscapes (config : SiteConfig) (t : FileTree) (r : PageResult) (e : FileError) : Prop :=
  e.isSystem = false ∧ ∃ page, r.result = .ok page ∧
    (Progress.writePage t config r.path page.output).2 = some e

/-- Pages of which one ends the build in the files that those before it leave. -/
def PagesEscape (config : SiteConfig) (t : FileTree) (rs : List PageResult) (e : FileError) : Prop :=
  ∃ before r after es t', rs = before ++ r :: after ∧ PagesEnd config t before es t' ∧
    PageEscapes config t' r e

namespace Progress

variable {config : SiteConfig} {p : Progress} {r : PageResult} {rs rs' : List PageResult}
  {e : FileError}

theorem finishPage_eq_some_iff :
    (finishPage config p r).2 = some e ↔ PageEscapes config p.tree r e := by
  unfold finishPage PageEscapes
  cases r.result with
  | error problem => simp
  | ok page =>
    rcases hwrite : writePage p.tree config r.path page.output with ⟨tree, stopped⟩
    cases stopped with
    | none => simp [hwrite]
    | some e' =>
      cases hsystem : e'.isSystem with
      | true =>
        simp only [hwrite, hsystem, if_true, reduceCtorEq, Except.ok.injEq, exists_eq_left',
          Option.some.injEq, false_iff, not_and]
        rintro hnot rfl
        cases hsystem.symm.trans hnot
      | false =>
        simp only [hwrite, hsystem, if_false, Bool.false_eq_true, Except.ok.injEq, exists_eq_left',
          Option.some.injEq]
        exact ⟨fun h => h ▸ ⟨hsystem, rfl⟩, And.right⟩

theorem finishPages_append : finishPages config p (rs ++ rs') =
    match finishPages config p rs with
    | (q, some e) => (q, some e)
    | (q, none) => finishPages config q rs' := by
  induction rs generalizing p with
  | nil => rfl
  | cons r rs ih =>
    rw [List.cons_append, finishPages, finishPages]
    rcases finishPage config p r with ⟨q, _ | e⟩
    · exact ih
    · rfl

theorem pagesEscape_of_finishPages (h : (finishPages config p rs).2 = some e) :
    PagesEscape config p.tree rs e := by
  induction rs generalizing p with
  | nil => cases h
  | cons r rs ih =>
    rcases hfinish : finishPage config p r with ⟨q, stopped⟩
    simp only [finishPages, hfinish] at h
    cases stopped with
    | some e' =>
      obtain rfl : e' = e := Option.some.inj h
      have hescapes := finishPage_eq_some_iff.1 (congrArg Prod.snd hfinish)
      exact ⟨[], r, rs, [], p.tree, rfl, .nil, hescapes⟩
    | none =>
      obtain ⟨entry, t', hpage⟩ := exists_pageEnds_of_finishPage (congrArg Prod.snd hfinish)
      obtain ⟨-, htree, -⟩ := finishPage_of_pageEnds hpage
      rw [hfinish] at htree
      subst htree
      obtain ⟨before, r', after, es, t', rfl, hbefore, hescapes⟩ := ih h
      exact ⟨r :: before, r', after, entry :: es, t', rfl, .cons hpage hbefore, hescapes⟩

/-- Pages stop where one of them cannot be written at all and those before it have ended. -/
theorem finishPages_eq_some_iff :
    (finishPages config p rs).2 = some e ↔ PagesEscape config p.tree rs e := by
  refine ⟨pagesEscape_of_finishPages, ?_⟩
  rintro ⟨before, r, after, es, t', rfl, hbefore, hescapes⟩
  obtain ⟨hnone, rfl, -⟩ := finishPages_of_pagesEnd hbefore
  have hstop := finishPage_eq_some_iff.2 hescapes
  rw [finishPages_append]
  rcases hfinish : finishPages config p before with ⟨q, stopped⟩
  rw [hfinish] at hnone hstop
  obtain rfl : stopped = none := hnone
  rcases hpage : finishPage config q r with ⟨q', stopped⟩
  rw [hpage] at hstop
  obtain rfl : stopped = some e := hstop
  simp only [finishPages, hpage]

end Progress

namespace Site

variable {s : Site} {config : SiteConfig} {settings : Settings} {t : FileTree} {f : SiteFailure}

/-- Where all values can be used, the build of a loaded site ends without a report only at a page
that cannot be encoded. -/
theorem build_eq_error_iff (logs : List LogLine)
    (hfault : ∀ page ∈ s.pages, (s.renderPage settings page).fault? = none) :
    (s.build config settings t logs).result = .error f ↔
      ∃ e, f = .file e ∧ PagesEscape config t (s.pages.map (s.renderPage settings)) e := by
  have hrendered := (renderAll_eq_ok_iff config).2 ⟨hfault, rfl⟩
  rcases hrender : s.renderAll config settings with ⟨result, lines⟩
  rw [hrender] at hrendered
  obtain rfl := hrendered
  rcases hfinish : Progress.finishPages config ⟨t, .empty, logs ++ lines⟩
    (s.pages.map (s.renderPage settings)) with ⟨p, stopped⟩
  have hstop (e : FileError) : stopped = some e ↔
      PagesEscape config t (s.pages.map (s.renderPage settings)) e := by
    rw [← Progress.finishPages_eq_some_iff (p := ⟨t, .empty, logs ++ lines⟩), hfinish]
  simp only [build, hrender, hfinish]
  cases stopped with
  | none =>
    refine iff_of_false (by simp) ?_
    rintro ⟨e, -, hescape⟩
    cases (hstop e).2 hescape
  | some e => simp [← hstop, eq_comm]

/-- A site as it is loaded has no page that stops the others while they are rendered. -/
theorem fault?_default_of_load {logs : List LogLine} (h : load t config = .ok (s, logs)) :
    ∀ page ∈ s.pages, (s.renderPage .default page).fault? = none := fun page hpage =>
  have hdata := jsonLike_data_of_load h
  fault?_renderPage Settings.usable_default Settings.bounded_default hdata
    (jsonLike_pages hdata page hpage)

end Site

/-- Pages of which none has failed are all built. -/
theorem PagesEnd.failed_eq_nil_iff {config : SiteConfig} {t t' : FileTree} {rs : List PageResult}
    {es : List ReportEntry} (h : PagesEnd config t rs es t') :
    es.filterMap ReportEntry.failed? = [] ↔ es = rs.map fun r => .built r.path := by
  induction h with
  | nil => simp
  | cons hpage _ ih =>
    cases hpage with
    | written => simpa using ih
    | unrendered | refused => simp

end Stencil
