import Stencil.Proofs.Template.Scan
import Stencil.Site.Build
/-! The report of a build: one entry for every page, in the order of the pages. What is written and
said of a page is what the page alone has in the site that was loaded, whatever the pages before it
are and whatever files they write over. -/
namespace Stencil

namespace Site

variable {s : Site} {settings : Settings} {pages : List Datum}

/-- The site with other pages. -/
def withPages (s : Site) (pages : List Datum) : Site :=
  { s with data := s.data.insert "pages" (.list pages) }

@[simp] theorem pages_withPages (s : Site) (pages : List Datum) :
    (s.withPages pages).pages = pages := by
  cases pages with
  | nil => simp [Site.pages, pagesOf, withPages, Datum.field, Datum.orElse, Datum.isVoid,
      Datum.items?]
  | cons page pages => simp [Site.pages, pagesOf, withPages, Datum.field, Datum.orElse,
      Datum.isVoid, Datum.items?]

theorem field_insert_pages (data : Mapping Datum) (d : Datum) (key : Text) (hkey : key ≠ "pages") :
    Datum.field (data.insert "pages" d) key = Datum.field data key := by
  rw [Datum.field, Datum.field, Mapping.get?_insert_of_ne hkey]

/-- The rendering of a page asks the site for everything but its pages. -/
theorem renderPage_withPages (s : Site) (settings : Settings) (pages : List Datum) (page : Datum) :
    (s.withPages pages).renderPage settings page = s.renderPage settings page := by
  have hsite := field_insert_pages s.data (.list pages) "site" (by decide)
  have hlanguages := field_insert_pages s.data (.list pages) "languages" (by decide)
  cases page with
  | mapping record => simp only [renderPage, withPages, templateFor, hsite, hlanguages]
  | absent | null | bool | int | float | str | list | tuple | scope => rfl

/-- A page rendered as if it were the only one of the site. -/
def renderAlone (s : Site) (settings : Settings) (page : Datum) : PageResult :=
  (s.withPages [page]).renderPage settings page

theorem renderAlone_eq (s : Site) (settings : Settings) :
    s.renderAlone settings = s.renderPage settings :=
  funext fun page => s.renderPage_withPages settings [page] page

/-- Pages are rendered each for itself, and all of them unless one has a value that cannot be
used. -/
theorem renderPages_eq_ok_iff {results : List PageResult} :
    (s.renderPages settings pages).1 = .ok results ↔
      (∀ page ∈ pages, (s.renderPage settings page).fault? = none) ∧
        results = pages.map (s.renderPage settings) := by
  induction pages generalizing results with
  | nil => simp [renderPages, eq_comm]
  | cons page pages ih =>
    rw [renderPages, List.forall_mem_cons]
    cases hfault : (s.renderPage settings page).fault? with
    | some fault => simp
    | none =>
      generalize s.renderPages settings pages = rest at ih ⊢
      obtain ⟨result, logs⟩ := rest
      cases result with
      | error fault =>
        have hnot : ¬ ∀ page ∈ pages, (s.renderPage settings page).fault? = none := fun h =>
          nomatch ih.2 ⟨h, rfl⟩
        simp [Except.map, hnot]
      | ok others =>
        obtain ⟨hnone, rfl⟩ := ih.1 rfl
        rw [and_iff_right ⟨rfl, hnone⟩, eq_comm, List.map_cons]
        simp [Except.map]

/-- Several workers give the same results as one, or end at the same value. -/
theorem fst_renderPool (s : Site) (settings : Settings) (pages : List Datum) :
    (s.renderPool settings pages).1 = (s.renderPages settings pages).1 := by
  induction pages with
  | nil => rfl
  | cons page pages ih =>
    simp only [renderPool, List.map_cons, List.findSome?_cons] at ih ⊢
    rw [renderPages]
    cases hfault : (s.renderPage settings page).fault? with
    | some fault => rfl
    | none =>
      simp only [← ih]
      cases (pages.map (s.renderPage settings)).findSome? PageResult.fault? <;> rfl

theorem renderAll_eq_ok_iff (config : SiteConfig) {results : List PageResult} :
    (s.renderAll config settings).1 = .ok results ↔
      (∀ page ∈ s.pages, (s.renderPage settings page).fault? = none) ∧
        results = s.pages.map (s.renderPage settings) := by
  unfold renderAll
  split
  · rw [fst_renderPool, renderPages_eq_ok_iff]
  · exact renderPages_eq_ok_iff

end Site

/-- What the report says of one page. -/
inductive ReportEntry where
  | built (path : Text)
  | failed (path message : Text)
deriving DecidableEq

namespace ReportEntry

@[simp] def built? : ReportEntry → Option Text
  | .built path => some path
  | .failed _ _ => none

@[simp] def failed? : ReportEntry → Option (Text × Text)
  | .built _ => none
  | .failed path message => some (path, message)

end ReportEntry

/-- The warnings of a page that was rendered, each with its path. -/
def PageResult.warnings (r : PageResult) : List (Text × Warning) :=
  match r.result with
  | .ok page => page.warnings.map fun w => (r.path, w)
  | .error _ => []

/-- The report of pages and their entries. -/
def BuildReport.ofEntries (rs : List PageResult) (es : List ReportEntry) : BuildReport :=
  ⟨es.filterMap ReportEntry.built?, es.filterMap ReportEntry.failed?,
    rs.flatMap PageResult.warnings⟩

/-- Reports one after the other. -/
def BuildReport.append (a b : BuildReport) : BuildReport :=
  ⟨a.built ++ b.built, a.failed ++ b.failed, a.warnings ++ b.warnings⟩

namespace BuildReport

theorem append_assoc (a b c : BuildReport) : (a.append b).append c = a.append (b.append c) := by
  simp [append]

theorem append_ofEntries (rs rs' : List PageResult) (es es' : List ReportEntry) :
    (ofEntries rs es).append (ofEntries rs' es') = ofEntries (rs ++ rs') (es ++ es') := by
  simp [append, ofEntries]

end BuildReport

/-- How a page ends: it was not rendered, or what was rendered is written, or the file system refuses
that. -/
inductive PageEnds (config : SiteConfig) (t : FileTree) (r : PageResult) :
    ReportEntry → FileTree → Prop
  | unrendered {problem : PageProblem} (hresult : r.result = .error problem) :
    PageEnds config t r (.failed r.path problem.text) t
  | written {page : Rendering} {t' : FileTree} (hresult : r.result = .ok page)
      (hwrite : Progress.writePage t config r.path page.output = (t', none)) :
    PageEnds config t r (.built r.path) t'
  | refused {page : Rendering} {t' : FileTree} {problem : FileProblem} {place : Text}
      (hresult : r.result = .ok page)
      (hwrite : Progress.writePage t config r.path page.output =
        (t', some (.system problem place))) :
    PageEnds config t r (.failed r.path (FileError.system problem place).message) t'

/-- How pages end one after the other, each in the files that those before it leave. -/
inductive PagesEnd (config : SiteConfig) :
    FileTree → List PageResult → List ReportEntry → FileTree → Prop
  | nil {t : FileTree} : PagesEnd config t [] [] t
  | cons {t t' t'' : FileTree} {r : PageResult} {rs : List PageResult} {e : ReportEntry}
      {es : List ReportEntry} (hpage : PageEnds config t r e t')
      (hpages : PagesEnd config t' rs es t'') : PagesEnd config t (r :: rs) (e :: es) t''

variable {config : SiteConfig} {settings : Settings} {t t' : FileTree} {r : PageResult}
  {rs : List PageResult} {e : ReportEntry} {es : List ReportEntry} {report : BuildReport}

theorem PagesEnd.length_eq (h : PagesEnd config t rs es t') : es.length = rs.length := by
  induction h with
  | nil => rfl
  | cons _ _ ih => simp [ih]

namespace Progress

variable {p : Progress}

/-- A page that ends in one of the three ways does not stop the build, and adds its entry and its
warnings to the report. -/
theorem finishPage_of_pageEnds (h : PageEnds config p.tree r e t') :
    (finishPage config p r).2 = none ∧ (finishPage config p r).1.tree = t' ∧
      (finishPage config p r).1.report = p.report.append (.ofEntries [r] [e]) := by
  unfold finishPage
  cases h with
  | unrendered hresult =>
    simp [hresult, fail, BuildReport.append, BuildReport.ofEntries, PageResult.warnings]
  | written hresult hwrite =>
    simp [hresult, hwrite, succeed, BuildReport.append, BuildReport.ofEntries,
      PageResult.warnings]
  | refused hresult hwrite =>
    simp [hresult, hwrite, FileError.isSystem, fail, BuildReport.append, BuildReport.ofEntries,
      PageResult.warnings]

/-- There is no other way for a page not to stop the build. -/
theorem exists_pageEnds_of_finishPage (h : (finishPage config p r).2 = none) :
    ∃ e t', PageEnds config p.tree r e t' := by
  unfold finishPage at h
  cases hresult : r.result with
  | error problem => exact ⟨_, _, .unrendered hresult⟩
  | ok page =>
    rcases hwrite : writePage p.tree config r.path page.output with ⟨tree, stopped⟩
    cases stopped with
    | none => exact ⟨_, _, .written hresult hwrite⟩
    | some e =>
      cases e with
      | path | content => simp [hresult, hwrite, FileError.isSystem] at h
      | system problem place => exact ⟨_, _, .refused hresult hwrite⟩

/-- All pages that end one after the other add their entries and warnings in order. -/
theorem finishPages_of_pagesEnd (h : PagesEnd config p.tree rs es t') :
    (finishPages config p rs).2 = none ∧ (finishPages config p rs).1.tree = t' ∧
      (finishPages config p rs).1.report = p.report.append (.ofEntries rs es) := by
  induction rs generalizing p es with
  | nil =>
    cases h
    exact ⟨rfl, rfl, by simp [finishPages, BuildReport.append, BuildReport.ofEntries]⟩
  | cons r rs ih =>
    cases h with
    | @cons _ _ _ _ _ e es hpage hpages =>
      obtain ⟨hnone, rfl, hreport⟩ := finishPage_of_pageEnds hpage
      rcases hfinish : finishPage config p r with ⟨q, stopped⟩
      rw [hfinish] at hnone hpages hreport
      obtain rfl : stopped = none := hnone
      simp only [finishPages, hfinish]
      obtain ⟨hnone, htree, hreports⟩ := ih hpages
      refine ⟨hnone, htree, ?_⟩
      rw [hreports, hreport, BuildReport.append_assoc, BuildReport.append_ofEntries]
      rfl

theorem exists_pagesEnd_of_finishPages (h : (finishPages config p rs).2 = none) :
    ∃ es t', PagesEnd config p.tree rs es t' := by
  induction rs generalizing p with
  | nil => exact ⟨_, _, .nil⟩
  | cons r rs ih =>
    rcases hfinish : finishPage config p r with ⟨q, stopped⟩
    simp only [finishPages, hfinish] at h
    cases stopped with
    | some e => cases h
    | none =>
      obtain ⟨e, t', hpage⟩ := exists_pageEnds_of_finishPage (congrArg Prod.snd hfinish)
      obtain ⟨es, t'', hpages⟩ := ih h
      obtain ⟨-, htree, -⟩ := finishPage_of_pageEnds hpage
      rw [hfinish] at htree
      subst htree
      exact ⟨_, _, .cons hpage hpages⟩

end Progress

namespace Site

variable {s : Site} {logs : List LogLine}

theorem build_of_load (h : load t config = .ok (s, logs)) :
    config.build settings t = s.build config settings t logs := by
  rw [SiteConfig.build, h]

/-- A build returns with all pages at their ends, unless one has a value that cannot be used. -/
theorem build_of_pagesEnd (logs : List LogLine)
    (hfault : ∀ page ∈ s.pages, (s.renderPage settings page).fault? = none)
    (h : PagesEnd config t (s.pages.map (s.renderPage settings)) es t') :
    (s.build config settings t logs).result =
        .ok (.ofEntries (s.pages.map (s.renderPage settings)) es) ∧
      (s.build config settings t logs).tree = t' := by
  have hrendered := (renderAll_eq_ok_iff config).2 ⟨hfault, rfl⟩
  rcases hrender : s.renderAll config settings with ⟨result, lines⟩
  rw [hrender] at hrendered
  obtain rfl := hrendered
  obtain ⟨hnone, htree, hreport⟩ :=
    Progress.finishPages_of_pagesEnd (p := ⟨t, .empty, logs ++ lines⟩) h
  rcases hfinish : Progress.finishPages config ⟨t, .empty, logs ++ lines⟩
    (s.pages.map (s.renderPage settings)) with ⟨p, stopped⟩
  rw [hfinish] at hnone htree hreport
  obtain rfl : stopped = none := hnone
  simp only [build, hrender, hfinish]
  exact ⟨congrArg Except.ok hreport, htree⟩

/-- It returns in no other way. -/
theorem pagesEnd_of_build (h : (s.build config settings t logs).result = .ok report) :
    (∀ page ∈ s.pages, (s.renderPage settings page).fault? = none) ∧
      ∃ es t', PagesEnd config t (s.pages.map (s.renderPage settings)) es t' := by
  unfold build at h
  rcases hrender : s.renderAll config settings with ⟨result, lines⟩
  cases result with
  | error fault => simp [hrender] at h
  | ok rs =>
    obtain ⟨hfault, rfl⟩ := (renderAll_eq_ok_iff config).1 (congrArg Prod.fst hrender)
    refine ⟨hfault, ?_⟩
    rcases hfinish : Progress.finishPages config ⟨t, .empty, logs ++ lines⟩
      (s.pages.map (s.renderPage settings)) with ⟨p, stopped⟩
    cases stopped with
    | some e => simp [hrender, hfinish] at h
    | none => exact Progress.exists_pagesEnd_of_finishPages (congrArg Prod.snd hfinish)

end Site

namespace SiteConfig

theorem exists_load_of_build (h : (config.build settings t).result = .ok report) :
    ∃ s logs, Site.load t config = .ok (s, logs) := by
  unfold build at h
  cases hload : Site.load t config with
  | error e => simp [hload] at h
  | ok loaded => exact ⟨loaded.1, loaded.2, rfl⟩

/-- A report that a build returns has one entry for every page, built or failed, in the order of the
pages, and their warnings in that order. What is written of a page, why it has failed and what it
warns of is what the page alone gives in the site as it was loaded, which does not depend on the
other pages; and no page is rendered from the files that a page before it leaves. -/
theorem report_partitions_snapshot (config : SiteConfig) (settings : Settings) (t : FileTree)
    (report : BuildReport) (h : (config.build settings t).result = .ok report) :
    ∃ site logs entries, Site.load t config = .ok (site, logs) ∧
      PagesEnd config t (site.pages.map (site.renderAlone settings)) entries
        (config.build settings t).tree ∧
      entries.length = site.pages.length ∧
      report.built = entries.filterMap ReportEntry.built? ∧
      report.failed = entries.filterMap ReportEntry.failed? ∧
      report.warnings = site.pages.flatMap (fun page => (site.renderAlone settings page).warnings) ∧
      (report.isOk ↔ report.failed = []) ∧
      ∀ pages page, (site.withPages pages).renderPage settings page =
        site.renderAlone settings page := by
  obtain ⟨site, logs, hload⟩ := exists_load_of_build h
  rw [Site.build_of_load hload] at h ⊢
  obtain ⟨hfault, entries, t', hends⟩ := Site.pagesEnd_of_build h
  obtain ⟨hresult, htree⟩ := Site.build_of_pagesEnd logs hfault hends
  obtain rfl := Except.ok.inj (h.symm.trans hresult)
  refine ⟨site, logs, entries, hload, ?_⟩
  rw [htree, site.renderAlone_eq settings]
  refine ⟨hends, ?_, rfl, rfl, ?_, List.isEmpty_iff, ?_⟩
  · rw [hends.length_eq, List.length_map]
  · exact List.flatMap_map _ _ _
  · exact fun pages page => site.renderPage_withPages settings pages page

end SiteConfig

/-- The record of a page in the language `en`. -/
def pageRecord (template path : Text) : Datum :=
  .mapping ⟨[("template", .str template), ("lang", .str "en"), ("outputPath", .str path)]⟩

/-- The directory of a site with some pages and one template. -/
def smallSite (pages : List Datum) (source : Text) : FileTree :=
  let languages : Datum := .mapping ⟨[("en", .mapping .empty)]⟩
  let data : Datum := .mapping ⟨[("languages", languages), ("pages", .list pages)]⟩
  ⟨[], [(["data.json"], .file (Utf8.bytes (Json.write .oneLine data))),
    (["templates"], .directory), (["templates", "p.html"], .file (Utf8.bytes source))]⟩

/-- Pages of which the first two are written over the data and the template, and the third has no
template. -/
def overwritingSite : FileTree :=
  smallSite [pageRecord "p" "data.json", pageRecord "p" "templates/p.html", pageRecord "q" "c.html",
    pageRecord "p" "d.html"] (tagOf "privacyUrl")

/-- All of them are rendered from the data and the template as they were. -/
theorem report_partitions_overwritingSite :
    ∃ site logs entries, Site.load overwritingSite {} = .ok (site, logs) ∧
      PagesEnd {} overwritingSite (site.pages.map (site.renderAlone .default)) entries
        (({} : SiteConfig).build .default overwritingSite).tree ∧
      entries.filterMap ReportEntry.built? =
        (["data.json", "templates/p.html", "d.html"] : List Text) ∧
      entries.filterMap ReportEntry.failed? =
        ([("c.html", "template \"q\" not found")] : List (Text × Text)) := by
  have hreport : (({} : SiteConfig).build .default overwritingSite).result =
      .ok ⟨["data.json", "templates/p.html", "d.html"], [("c.html", "template \"q\" not found")],
        []⟩ :=
    ok_of_toOption (by decide +kernel)
  obtain ⟨site, logs, entries, hload, hends, -, hbuilt, hfailed, -⟩ :=
    SiteConfig.report_partitions_snapshot {} .default overwritingSite _ hreport
  exact ⟨site, logs, entries, hload, hends, hbuilt.symm, hfailed.symm⟩

end Stencil
