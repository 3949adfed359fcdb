import Stencil.Proofs.Json.Document
import Stencil.Proofs.Render.Termination
import Stencil.Site.Build
/-! Pages of a loaded site: whatever their records are, they are rendered with values of documents,
so that nothing but a template or its inclusions can fail. -/
namespace Stencil

section

variable {ε α β : Type} {x : Except ε α}

theorem exists_of_bind_eq_ok {f : α → Except ε β} {b : β} (h : x >>= f = .ok b) :
    ∃ a, x = .ok a ∧ f a = .ok b := by
  cases x with
  | error e => cases h
  | ok a => exact ⟨a, rfl, h⟩

theorem exists_of_map_eq_ok {f : α → β} {b : β} (h : x.map f = .ok b) :
    ∃ a, x = .ok a ∧ f a = b := by
  cases x with
  | error e => cases h
  | ok a => exact ⟨a, rfl, Except.ok.inj h⟩

end

namespace Datum

variable {d e : Datum} {m n : Mapping Datum} {name : Text}

theorem JsonLike.orElse (hd : d.JsonLike) (he : e.JsonLike) : (d.orElse e).JsonLike := by
  unfold Datum.orElse
  split
  · exact he
  · exact hd

theorem JsonLike.field (h : (Datum.mapping m).JsonLike) (name : Text) :
    (Datum.field m name).JsonLike := by
  unfold Datum.field
  cases hd : m.get? name with
  | none => exact .null
  | some d => exact h.get? hd

theorem JsonLike.values (h : (Datum.mapping m).JsonLike) : ∀ e ∈ m.entries, e.2.JsonLike := by
  cases h with
  | mapping _ values => exact values

theorem JsonLike.insert (h : (Datum.mapping m).JsonLike) (hd : d.JsonLike) (name : Text) :
    (Datum.mapping (m.insert name d)).JsonLike :=
  .mapping (Mapping.distinct_insert h.distinct name d) (Mapping.forall_put hd h.values)

theorem JsonLike.merge (hm : (Datum.mapping m).JsonLike) (hn : (Datum.mapping n).JsonLike) :
    (Datum.mapping (m.merge n)).JsonLike :=
  .mapping (Mapping.distinct_merge hm.distinct n) (Mapping.forall_merge hm.values hn.values)

end Datum

namespace PageContext

open Datum (JsonLike)

variable {d site languages page path siteUrl base slug : Datum} {m record language : Mapping Datum}
  {r : Record} {code current default : Text} {es : List (Text × Datum)} {ds entries : List Datum}

theorem jsonLike_object (h : d.JsonLike) (hobject : object r d = .ok m) :
    (Datum.mapping m).JsonLike := by
  unfold object at hobject
  split at hobject
  · obtain rfl := Except.ok.inj hobject
    exact Datum.jsonLike_empty
  · obtain rfl := Except.ok.inj hobject
    exact h
  · cases hobject

theorem jsonLike_fieldOrEmpty (h : (Datum.mapping m).JsonLike) (name : Text) :
    (fieldOrEmpty m name).JsonLike := (h.field name).orElse (.str [])

theorem jsonLike_pageLanguage (h : (Datum.mapping m).JsonLike)
    (hlanguage : pageLanguage m record = .ok (code, language)) :
    (Datum.mapping language).JsonLike := by
  unfold pageLanguage at hlanguage
  split at hlanguage
  · split at hlanguage
    · cases hlanguage
    · next found hfound =>
      obtain ⟨own, hown, heq⟩ := exists_of_map_eq_ok hlanguage
      obtain ⟨-, rfl⟩ := Prod.mk.inj heq
      exact jsonLike_object (h.get? hfound) hown
  · cases hlanguage

theorem jsonLike_switcherEntry (siteUrl path : Datum) (current default code : Text)
    (h : (Datum.mapping language).JsonLike) :
    (switcherEntry siteUrl path current default code language).JsonLike := by
  have hkeys : (["code", "name", "flag", "url", "fullUrl", "isCurrent"] : List Text).Nodup := by
    decide
  refine .mapping hkeys ?_
  simp only [List.forall_mem_cons, List.not_mem_nil, false_implies, implies_true, and_true]
  exact ⟨.str _, h.field _, h.field _, .str _, .str _, .bool _⟩

theorem jsonLike_switcher (hes : ∀ e ∈ es, e.2.JsonLike)
    (h : switcher siteUrl path current default es = .ok entries) :
    ∀ e ∈ entries, e.JsonLike := by
  induction es generalizing entries with
  | nil =>
    obtain rfl := Except.ok.inj h
    exact nofun
  | cons e es ih =>
    obtain ⟨hlanguage, hes⟩ := List.forall_mem_cons.1 hes
    rw [switcher] at h
    split at h
    · cases h
    · next own hown =>
      obtain ⟨others, hothers, rfl⟩ := exists_of_map_eq_ok h
      exact List.forall_mem_cons.2
        ⟨jsonLike_switcherEntry _ _ _ _ _ (jsonLike_object hlanguage hown), ih hes hothers⟩

theorem jsonLike_navEntry (base slug : Datum) (h : (Datum.mapping m).JsonLike) :
    (navEntry base slug m).JsonLike :=
  (h.insert (.str _) _).insert (.bool _) _

theorem jsonLike_navEntries (hds : ∀ d ∈ ds, d.JsonLike)
    (h : navEntries code base slug ds = .ok entries) : ∀ e ∈ entries, e.JsonLike := by
  induction ds generalizing entries with
  | nil =>
    obtain rfl := Except.ok.inj h
    exact nofun
  | cons d ds ih =>
    obtain ⟨happ, hds⟩ := List.forall_mem_cons.1 hds
    rw [navEntries] at h
    split at h
    · cases h
    · next own hown =>
      obtain ⟨others, hothers, rfl⟩ := exists_of_map_eq_ok h
      exact List.forall_mem_cons.2
        ⟨jsonLike_navEntry _ _ (jsonLike_object happ hown), ih hds hothers⟩

theorem jsonLike_apps (h : (Datum.mapping language).JsonLike) (happs : apps code language = .ok ds) :
    ∀ d ∈ ds, d.JsonLike := by
  unfold apps at happs
  split at happs
  · cases happs
  · next nav hnav =>
    have hnav := jsonLike_object (h.field _) hnav
    split at happs
    · cases happs
    · next items hitems =>
      obtain rfl := Except.ok.inj happs
      exact ((hnav.field "apps").orElse (e := .list []) (.list nofun)).of_items? hitems

theorem jsonLike_derived (hsite : (Datum.mapping m).JsonLike)
    (hlanguage : (Datum.mapping language).JsonLike) (path : Datum) (hds : ∀ d ∈ ds, d.JsonLike)
    (hentries : ∀ e ∈ entries, e.JsonLike) :
    (Datum.mapping (derived m language path ds entries)).JsonLike := by
  have hkeys : (["site", "lang", "langPrefix", "currency", "langSwitcher", "navApps", "brandUrl",
      "footerHomeUrl", "canonicalUrl", "xDefaultUrl", "footer", "cookie", "privacyUrl"] :
      List Text).Nodup := by
    decide
  refine .mapping hkeys ?_
  simp only [derived, List.forall_mem_cons, List.not_mem_nil, false_implies, implies_true, and_true]
  exact ⟨hsite, hlanguage, jsonLike_fieldOrEmpty hlanguage _, hlanguage.field _, .list hds,
    .list hentries, .str _, .str _, .str _, .str _, hlanguage.field _, hlanguage.field _, .str _⟩

/-- From records of documents come values of documents, whatever the records are. -/
theorem jsonLike_build (hsite : site.JsonLike) (hlanguages : languages.JsonLike)
    (hpage : page.JsonLike) (h : build site languages page = .ok m) :
    (Datum.mapping m).JsonLike := by
  obtain ⟨siteRecord, hsiteRecord, h⟩ := exists_of_bind_eq_ok h
  obtain ⟨allLanguages, hallLanguages, h⟩ := exists_of_bind_eq_ok h
  obtain ⟨pageRecord, hpageRecord, h⟩ := exists_of_bind_eq_ok h
  obtain ⟨data, hdata, h⟩ := exists_of_bind_eq_ok h
  obtain ⟨⟨code, language⟩, hlanguage, h⟩ := exists_of_bind_eq_ok h
  obtain ⟨languageEntries, hswitcher, h⟩ := exists_of_bind_eq_ok h
  obtain ⟨items, happs, h⟩ := exists_of_bind_eq_ok h
  obtain ⟨appEntries, hnav, h⟩ := exists_of_bind_eq_ok h
  obtain rfl := Except.ok.inj h
  have hallLanguages := jsonLike_object hlanguages hallLanguages
  have hpageRecord := jsonLike_object hpage hpageRecord
  have hlanguage := jsonLike_pageLanguage hallLanguages hlanguage
  have hderived := jsonLike_derived (jsonLike_object hsite hsiteRecord) hlanguage
    (fieldOrEmpty pageRecord "path") (jsonLike_switcher hallLanguages.values hswitcher)
    (jsonLike_navEntries (jsonLike_apps hlanguage happs) hnav)
  exact hderived.merge (jsonLike_object (hpageRecord.field _) hdata)

end PageContext

/-- A limit that inclusions can reach. -/
def Settings.Bounded (settings : Settings) : Prop :=
  ∃ limit, settings.limit = .ok limit ∧ limit.room?.isSome

theorem Settings.bounded_default : Settings.default.Bounded := ⟨.int 32, rfl, rfl⟩

/-- A source fails for a template or an inclusion, and not for a value. -/
theorem renderSource_ne_unusable {settings : Settings} (husable : settings.Usable)
    (hbounded : settings.Bounded) (partials : Partials) (file : Option Text) (source : Text)
    {context : Datum} (hcontext : context.JsonLike) (fault : ValueFault) :
    (renderSource settings partials file source context).result ≠ .error (.unusable fault) := by
  intro hresult
  cases hparse : Template.parse file source with
  | error e => simp [renderSource, hparse] at hresult
  | ok t =>
    obtain ⟨e, he, htrace⟩ :=
      Render.exists_executes_run settings partials t.nodes (Scope.ofDatum context)
    rw [renderSource, hparse] at hresult
    simp only [Template.render, ← htrace, Outcome.ofTrace] at hresult
    split at hresult
    · next f hfailure =>
      obtain rfl := Except.error.inj hresult
      obtain ⟨limit, hlimit, hroom⟩ := hbounded
      rcases Render.malformed_or_tooDeep_of_executes husable hlimit hroom
        (Scope.jsonLike_ofDatum hcontext) he hfailure with ⟨e, he⟩ | ⟨name, location, hdeep⟩
      · cases he
      · cases hdeep
    · cases hresult

theorem FileTree.jsonLike_loadData {t : FileTree} {path : FilePath} {data : Mapping Datum}
    (h : t.loadData path = .ok data) : (Datum.mapping data).JsonLike := by
  unfold loadData at h
  split at h
  · cases h
  · split at h
    · cases h
    · split at h
      · cases h
      · cases h
      · next hread =>
        split at h
        · obtain rfl := Except.ok.inj h
          exact Json.jsonLike_read hread
        · cases h
      · cases h
  · cases h

namespace Site

variable {t : FileTree} {config : SiteConfig} {s : Site} {logs : List LogLine}

theorem jsonLike_data_of_load (h : load t config = .ok (s, logs)) :
    (Datum.mapping s.data).JsonLike := by
  obtain ⟨data, hdata, h⟩ := exists_of_bind_eq_ok h
  obtain ⟨templates, -, h⟩ := exists_of_bind_eq_ok h
  obtain ⟨⟨partials, lines⟩, -, h⟩ := exists_of_bind_eq_ok h
  obtain ⟨rfl, -⟩ := Prod.mk.inj (Except.ok.inj h)
  exact FileTree.jsonLike_loadData hdata

theorem jsonLike_pages (h : (Datum.mapping s.data).JsonLike) : ∀ page ∈ s.pages, page.JsonLike := by
  have hpages := (h.field "pages").orElse (e := .list []) (.list nofun)
  unfold pages pagesOf
  cases hitems : ((Datum.field s.data "pages").orElse (.list [])).items? with
  | none => exact nofun
  | some items => exact hpages.of_items? hitems

/-- No record of a page can stop a build while pages are rendered: whatever is wrong with it is a
problem of that page. -/
theorem fault?_renderPage {settings : Settings} (husable : settings.Usable)
    (hbounded : settings.Bounded) (hdata : (Datum.mapping s.data).JsonLike) {page : Datum}
    (hpage : page.JsonLike) : (s.renderPage settings page).fault? = none := by
  cases page with
  | mapping record =>
    have hpart (key : Text) : ((Datum.field s.data key).orElse (.mapping .empty)).JsonLike :=
      (hdata.field key).orElse Datum.jsonLike_empty
    simp only [renderPage]
    split
    · rfl
    · split
      · rfl
      · split
        · rfl
        · next context hcontext =>
          have hcontext := PageContext.jsonLike_build (hpart _) (hpart _) hpage hcontext
          split
          · next f hresult =>
            cases f with
            | unusable fault =>
              exact absurd hresult (renderSource_ne_unusable husable hbounded _ _ _ hcontext fault)
            | malformed | tooDeep => rfl
          · rfl
  | absent | null | bool | int | float | str | list | tuple | scope => rfl

end Site
end Stencil
