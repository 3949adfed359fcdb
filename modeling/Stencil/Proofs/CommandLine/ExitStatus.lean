import Stencil.CommandLine.Run
import Stencil.Proofs.Site.Unreadable
/-! The exit status of the program: where it ends with one, that tells whether everything was built,
and it ends with one unless something could not be read or a page not be encoded. -/
namespace Stencil

namespace CommandLine

/-- All that was asked for is done: the site is loaded, and all of its pages are built, which leaves
the files in `t'`. -/
def BuildArguments.Complete (b : BuildArguments) (t t' : FileTree) : Prop :=
  ∃ site logs, Site.load t b.config = .ok (site, logs) ∧
    PagesEnd b.config t (site.pages.map (site.renderAlone .default))
      (site.pages.map fun page => .built (site.renderAlone .default page).path) t'

/-- What keeps a build from being reported, in the order in which it is come to: values that were
asked for without being given, what cannot be read, and a page that cannot be encoded. -/
inductive BuildArguments.Breaks (b : BuildArguments) (t : FileTree) : Prop
  | workers (hvalue : .workers ∈ b.notGiven) : Breaks b t
  | data (hdata : .data ∈ b.notGiven ∨ t.DataUnreadable (b.config.root.join b.config.data)) :
    Breaks b t
  | templates {data : Mapping Datum}
      (hdata : t.loadData (b.config.root.join b.config.data) = .ok data)
      (htemplates : .templates ∈ b.notGiven ∨
        t.SourcesUnreadable (b.config.root.join b.config.templates) templateSuffix) :
    Breaks b t
  | partials {data : Mapping Datum} {templates : Mapping Text}
      (hdata : t.loadData (b.config.root.join b.config.data) = .ok data)
      (htemplates : t.loadTemplates (b.config.root.join b.config.templates) templateSuffix =
        .ok templates)
      (hpartials : .partials ∈ b.notGiven ∨
        t.SourcesUnreadable (b.config.root.join b.config.partials) templateSuffix) :
    Breaks b t
  | pages {site : Site} {logs : List LogLine} {e : FileError}
      (hload : Site.load t b.config = .ok (site, logs))
      (hpages : PagesEscape b.config t (site.pages.map (site.renderAlone .default)) e) : Breaks b t

/-- The program ends with a status: 0 if all is complete, otherwise 1. -/
def Ending.Tells (e : Ending) (complete : Prop) : Prop :=
  ∃ status messages, e = .finished status messages ∧
    (complete ∧ status = 0 ∨ ¬ complete ∧ status = 1)

namespace BuildArguments

/-- A part of a site that is at the path which a switch names. -/
def given {α : Type} (b : BuildArguments) (switch : Switch) (x : Except SiteFailure α) :
    Except SiteFailure α :=
  if switch ∈ b.notGiven then .error .pathNotGiven else x

/-- The site that the arguments name. -/
def load (b : BuildArguments) (t : FileTree) : Except SiteFailure (Site × List LogLine) :=
  if .workers ∈ b.notGiven then .error .workersNotGiven
  else do
    let data ← b.given .data (t.loadData (b.config.root.join b.config.data))
    let templates ← b.given .templates
      (t.loadTemplates (b.config.root.join b.config.templates) templateSuffix)
    let (partials, logs) ← b.given .partials
      (t.loadPartials (b.config.root.join b.config.partials) templateSuffix)
    let site : Site := ⟨data, templates, partials⟩
    return (site, logs ++ site.summary)

variable {b : BuildArguments} {t : FileTree}

theorem escapes_given_iff {α : Type} {switch : Switch} {x : Except SiteFailure α} :
    Escapes (b.given switch x) ↔ switch ∈ b.notGiven ∨ Escapes x := by
  unfold given
  split <;> simp [*, SiteFailure.Escapes]

theorem given_of_not_escapes {α : Type} {switch : Switch} {x : Except SiteFailure α}
    (h : ¬ Escapes (b.given switch x)) : b.given switch x = x :=
  if_neg fun hvalue => h (escapes_given_iff.2 (.inl hvalue))

theorem given_bind_congr {α β : Type} {switch : Switch} {x : Except SiteFailure α}
    {g g' : α → Except SiteFailure β} (h : ¬ Escapes (b.given switch x >>= g))
    (hrest : ∀ a, x = .ok a → ¬ Escapes (g a) → g a = g' a) :
    (b.given switch x >>= g) = x >>= g' := by
  obtain ⟨hx, hg⟩ := not_or.1 (mt escapes_bind_iff.2 h)
  have hgiven := given_of_not_escapes hx
  cases x with
  | error f => rw [hgiven]; rfl
  | ok a => rw [hgiven] at hg ⊢; exact hrest a rfl fun hescapes => hg ⟨a, rfl, hescapes⟩

/-- Where loading does not escape, all values that it asks for were given. -/
theorem load_of_not_escapes (h : ¬ Escapes (b.load t)) : b.load t = Site.load t b.config := by
  have hworkers : .workers ∉ b.notGiven := fun hvalue => h (by simp [load, hvalue, SiteFailure.Escapes])
  rw [load, if_neg hworkers] at h ⊢
  refine given_bind_congr h fun data _ h => ?_
  refine given_bind_congr h fun templates _ h => ?_
  exact given_bind_congr h fun partials _ _ => rfl

theorem buildRun_eq (b : BuildArguments) (t : FileTree) : buildRun b t =
    match b.load t with
    | .error f => ⟨.error f, t, []⟩
    | .ok (site, logs) => site.build b.config .default t logs := by
  unfold buildRun failureWithout load
  by_cases hworkers : .workers ∈ b.notGiven
  · simp [hworkers]
  by_cases hdata : .data ∈ b.notGiven
  · simp [hworkers, hdata, given, bind, Except.bind]
  by_cases htemplates : .templates ∈ b.notGiven
  · simp only [List.contains_iff_mem, hworkers, hdata, htemplates, given, bind, Except.bind,
      if_true, if_false]
    cases t.loadData (b.config.root.join b.config.data) <;> rfl
  by_cases hpartials : .partials ∈ b.notGiven
  · simp only [List.contains_iff_mem, hworkers, hdata, htemplates, hpartials, given, bind,
      Except.bind, if_true, if_false]
    cases t.loadData (b.config.root.join b.config.data) with
    | error f => rfl
    | ok data =>
      cases t.loadTemplates (b.config.root.join b.config.templates) templateSuffix <;> rfl
  · simp only [List.contains_iff_mem, hworkers, hdata, htemplates, hpartials, given, if_false]
    rfl

theorem escapes_given_bind_iff {α β : Type} {switch : Switch} {x : Except SiteFailure α}
    {g : α → Except SiteFailure β} : Escapes (b.given switch x >>= g) ↔
      (switch ∈ b.notGiven ∨ Escapes x) ∨ ∃ a, x = .ok a ∧ Escapes (g a) := by
  rw [escapes_bind_iff, escapes_given_iff]
  by_cases hvalue : switch ∈ b.notGiven
  · simp [hvalue]
  · simp [given, hvalue]

theorem escapes_load_iff : Escapes (b.load t) ↔ .workers ∈ b.notGiven ∨
    (.data ∈ b.notGiven ∨ t.DataUnreadable (b.config.root.join b.config.data)) ∨
    ∃ data, t.loadData (b.config.root.join b.config.data) = .ok data ∧
      ((.templates ∈ b.notGiven ∨
        t.SourcesUnreadable (b.config.root.join b.config.templates) templateSuffix) ∨
      ∃ templates, t.loadTemplates (b.config.root.join b.config.templates) templateSuffix =
        .ok templates ∧ (.partials ∈ b.notGiven ∨
          t.SourcesUnreadable (b.config.root.join b.config.partials) templateSuffix)) := by
  unfold load
  split
  · simp [*, SiteFailure.Escapes]
  · simp only [*, escapes_given_bind_iff, FileTree.escapes_loadData_iff, false_or,
      FileTree.escapes_loadTemplates_iff, FileTree.escapes_loadPartials_iff, pure, Except.pure,
      not_escapes_ok, and_false, exists_false, or_false]

theorem breaks_iff : b.Breaks t ↔ Escapes (b.load t) ∨ ∃ site logs e,
    Site.load t b.config = .ok (site, logs) ∧
      PagesEscape b.config t (site.pages.map (site.renderAlone .default)) e := by
  rw [escapes_load_iff]
  constructor
  · intro h
    cases h with
    | workers hvalue => exact .inl (.inl hvalue)
    | data hdata => exact .inl (.inr (.inl hdata))
    | templates hdata htemplates => exact .inl (.inr (.inr ⟨_, hdata, .inl htemplates⟩))
    | partials hdata htemplates hpartials =>
      exact .inl (.inr (.inr ⟨_, hdata, .inr ⟨_, htemplates, hpartials⟩⟩))
    | pages hload hpages => exact .inr ⟨_, _, _, hload, hpages⟩
  · rintro ((hvalue | hdata | ⟨data, hdata, htemplates | ⟨templates, htemplates, hpartials⟩⟩) |
      ⟨site, logs, e, hload, hpages⟩)
    · exact .workers hvalue
    · exact .data hdata
    · exact .templates hdata htemplates
    · exact .partials hdata htemplates hpartials
    · exact .pages hload hpages

/-- A loaded site whose pages all end is reported, without a failure where all are built. -/
theorem complete_iff {site : Site} {logs : List LogLine} {report : BuildReport}
    (hload : Site.load t b.config = .ok (site, logs))
    (hresult : (site.build b.config .default t logs).result = .ok report) :
    b.Complete t (site.build b.config .default t logs).tree ↔ report.isOk := by
  obtain ⟨hfault, es, t', hends⟩ := Site.pagesEnd_of_build hresult
  obtain ⟨hreport, htree⟩ := Site.build_of_pagesEnd logs hfault hends
  obtain rfl := Except.ok.inj (hresult.symm.trans hreport)
  rw [htree, BuildReport.isOk, List.isEmpty_iff]
  constructor
  · rintro ⟨site', logs', hload', hbuilt⟩
    obtain ⟨rfl, rfl⟩ := Prod.mk.inj (Except.ok.inj (hload.symm.trans hload'))
    rw [Site.renderAlone_eq] at hbuilt
    obtain ⟨hreport', -⟩ := Site.build_of_pagesEnd logs hfault hbuilt
    obtain hsame := Except.ok.inj (hreport.symm.trans hreport')
    rw [hsame]
    exact hbuilt.failed_eq_nil_iff.2 (by rw [List.map_map]; rfl)
  · intro hfailed
    obtain rfl := hends.failed_eq_nil_iff.1 hfailed
    rw [← Site.renderAlone_eq, List.map_map] at hends
    exact ⟨site, logs, hload, hends⟩

end BuildArguments

variable {b : BuildArguments} {t : FileTree}

theorem endingOf_of_escapes {run : BuildRun} {f : SiteFailure} (verbose : Bool)
    (hresult : run.result = .error f) (h : f.Escapes) :
    ∃ failure messages, endingOf verbose run = .broken failure messages := by
  unfold endingOf
  rw [hresult]
  cases f with
  | build e => exact h.elim
  | _ => exact ⟨_, _, rfl⟩

/-- A site that cannot be built is not complete. -/
theorem tells_of_loadFailure {f : SiteFailure} {t' : FileTree} (hload : Site.load t b.config = .error f)
    (hnot : ¬ f.Escapes) : (endingOf b.verbose ⟨.error f, t, []⟩).Tells (b.Complete t t') := by
  have hincomplete : ¬ b.Complete t t' := by
    rintro ⟨site, logs, hload', -⟩
    cases hload.symm.trans hload'
  cases f with
  | build e => exact ⟨1, _, rfl, .inr ⟨hincomplete, rfl⟩⟩
  | _ => exact absurd trivial hnot

/-- A site that is loaded is complete where its build is reported without a failure. -/
theorem tells_of_load {site : Site} {logs : List LogLine}
    (hload : Site.load t b.config = .ok (site, logs))
    (hpages : ∀ e, ¬ PagesEscape b.config t (site.pages.map (site.renderAlone .default)) e) :
    (endingOf b.verbose (site.build b.config .default t logs)).Tells
      (b.Complete t (site.build b.config .default t logs).tree) := by
  rw [Site.renderAlone_eq] at hpages
  cases hresult : (site.build b.config .default t logs).result with
  | error f =>
    obtain ⟨e, -, hescape⟩ :=
      (Site.build_eq_error_iff logs (Site.fault?_default_of_load hload)).1 hresult
    exact absurd hescape (hpages e)
  | ok report =>
    rw [BuildArguments.complete_iff hload hresult, endingOf, hresult]
    refine ⟨_, _, rfl, ?_⟩
    cases report.isOk with
    | true => exact .inl ⟨rfl, rfl⟩
    | false => exact .inr ⟨nofun, rfl⟩

/-- The status that the program ends with, if it does. -/
def Ending.status? : Ending → Option Nat
  | .finished status _ => some status
  | .usage _ _ | .broken _ _ => none

/-- Two pages, one of them in a directory that is not there yet. -/
def twoPageSite : FileTree := smallSite [pageRecord "p" "a", pageRecord "p" "d/e"] "hi"

/-- A site whose data are not UTF-8. -/
def undecodableSite : FileTree :=
  ⟨[], [(["data.json"], .file [0xff]), (["templates"], .directory),
    (["templates", "p.html"], .file (Utf8.bytes "hi"))]⟩

end CommandLine
end Stencil
