import Stencil.Proofs.Datum.JsonLike
import Stencil.Site.PageContext
/-! What the records of a page have to be. The values for a page are built exactly if each of these
requirements is met, and otherwise the first one that is not is said to be at fault. -/
namespace Stencil

/-- Null or a mapping. -/
def Datum.IsRecord (d : Datum) : Prop := d = .null ∨ ∃ m, d = .mapping m

/-- Something that records have to be, and what is said if they are not. -/
structure Requirement where
  met : Prop
  message : Text

namespace Requirement

/-- A record has to be an object, where null counts as an empty one. -/
def object (record : Record) (d : Datum) : Requirement :=
  ⟨d.IsRecord, record.text ++ " must be an object, got " ++ d.kindName⟩

/-- A page has to name a language of the site. -/
def knownLanguage (languages : Mapping Datum) (lang : Datum) : Requirement :=
  ⟨∃ code ∈ languages.keys, lang = .str code, "Unknown language " ++ lang.literal⟩

/-- The apps of a navigation have to be a list, unless they count as left out. -/
def appsList (code : Text) (apps : Datum) : Requirement :=
  ⟨apps.isVoid ∨ apps.items?.isSome, "language " ++ code.quoted ++ " nav.apps must be a list"⟩

end Requirement

/-- The message of the first requirement that is not met. -/
inductive FirstUnmet : List Requirement → Text → Prop where
  | here {r : Requirement} {rs : List Requirement} (unmet : ¬ r.met) :
    FirstUnmet (r :: rs) r.message
  | later {r : Requirement} {rs : List Requirement} {message : Text} (met : r.met)
    (rest : FirstUnmet rs message) : FirstUnmet (r :: rs) message

namespace FirstUnmet

variable {r : Requirement} {rs qs : List Requirement} {message other : Text}

theorem append (h : FirstUnmet rs message) (qs : List Requirement) :
    FirstUnmet (rs ++ qs) message := by
  induction h with
  | here unmet => exact .here unmet
  | later met _ ih => exact .later met ih

theorem of_append (hrs : ∀ r ∈ rs, r.met) (h : FirstUnmet qs message) :
    FirstUnmet (rs ++ qs) message := by
  induction rs with
  | nil => exact h
  | cons r rs ih =>
    obtain ⟨hr, hrs⟩ := List.forall_mem_cons.1 hrs
    exact .later hr (ih hrs)

theorem not_all (h : FirstUnmet rs message) : ¬ ∀ r ∈ rs, r.met := by
  intro hall
  induction h with
  | here unmet => exact unmet (hall _ List.mem_cons_self)
  | later _ _ ih => exact ih fun r hr => hall r (List.mem_cons_of_mem _ hr)

theorem unique (h : FirstUnmet rs message) (hother : FirstUnmet rs other) : message = other := by
  induction h with
  | here unmet =>
    cases hother with
    | here => rfl
    | later met => exact absurd met unmet
  | later met _ ih =>
    cases hother with
    | here unmet => exact absurd met unmet
    | later _ rest => exact ih rest

end FirstUnmet

/-- A computation that succeeds if all requirements are met, and otherwise fails for the first one that
is not. -/
def Enforces {α : Type} (x : Except BuildError α) (rs : List Requirement) : Prop :=
  match x with
  | .ok _ => ∀ r ∈ rs, r.met
  | .error e => FirstUnmet rs e.text

namespace Enforces

variable {α β : Type} {x : Except BuildError α} {f : α → Except BuildError β}
  {rs qs : List Requirement}

theorem of_unmet {r : Requirement} (hr : ¬ r.met) {e : BuildError} (he : e.text = r.message) :
    Enforces (.error e : Except BuildError α) (r :: rs) := by
  have hfirst : FirstUnmet (r :: rs) r.message := .here hr
  rwa [← he] at hfirst

theorem cons {r : Requirement} (hr : r.met) (hx : Enforces x rs) : Enforces x (r :: rs) := by
  cases x with
  | error e => exact .later hr hx
  | ok a => exact List.forall_mem_cons.2 ⟨hr, hx⟩

/-- Requirements of one computation after those of another. -/
theorem bind (hx : Enforces x rs) (hf : ∀ a, x = .ok a → Enforces (f a) qs) :
    Enforces (x >>= f) (rs ++ qs) := by
  cases x with
  | error e => exact FirstUnmet.append hx qs
  | ok a =>
    have hfa := hf a rfl
    change Enforces (f a) (rs ++ qs)
    cases hb : f a with
    | error e =>
      rw [hb] at hfa
      exact FirstUnmet.of_append hx hfa
    | ok b =>
      rw [hb] at hfa
      exact List.forall_mem_append.2 ⟨hx, hfa⟩

theorem map (hx : Enforces x rs) (f : α → β) : Enforces (x.map f) rs := by
  cases x with
  | error e => exact hx
  | ok a => exact hx

theorem exists_ok_iff (h : Enforces x rs) : (∃ a, x = .ok a) ↔ ∀ r ∈ rs, r.met := by
  cases x with
  | error e => exact ⟨nofun, fun hall => absurd hall (FirstUnmet.not_all h)⟩
  | ok a => exact ⟨fun _ => h, fun _ => ⟨a, rfl⟩⟩

theorem exists_error_iff (h : Enforces x rs) (message : Text) :
    (∃ e, x = .error e ∧ e.text = message) ↔ FirstUnmet rs message := by
  cases x with
  | ok a => exact ⟨nofun, fun hfirst => absurd h hfirst.not_all⟩
  | error e =>
    constructor
    · rintro ⟨e', he, rfl⟩
      obtain rfl := Except.error.inj he
      exact h
    · intro hfirst
      exact ⟨e, rfl, FirstUnmet.unique h hfirst⟩

end Enforces

namespace PageContext

variable {d site languages page path siteUrl base slug : Datum} {m record language : Mapping Datum}
  {r : Record} {code current default : Text}

/-- The own data of a page. -/
def dataOf (page : Datum) : Datum := Datum.field page.asMapping "data"

/-- What a page calls its language. -/
def langOf (page : Datum) : Datum := Datum.field page.asMapping "lang"

/-- The record of a language. -/
def languageOf (languages : Datum) (code : Text) : Datum := Datum.field languages.asMapping code

/-- The navigation of a language. -/
def navOf (language : Datum) : Datum := Datum.field language.asMapping "nav"

/-- What the navigation of a language gives as its apps. -/
def appsOf (language : Datum) : Datum := Datum.field (navOf language).asMapping "apps"

/-- The apps of a language; there are none if they are left out. -/
def appRecords (language : Datum) : List Datum := (appsOf language).items?.getD []

/-- What is required of the records of a language and of all languages beside it. -/
def languageRequirements (languages : Datum) (code : Text) : List Requirement :=
  [.object (.language code) (languageOf languages code)] ++
  (languages.asMapping.entries.map fun e => .object (.language e.1) e.2) ++
  [.object (.nav code) (navOf (languageOf languages code)),
    .appsList code (appsOf (languageOf languages code))] ++
  (appRecords (languageOf languages code)).map fun app => .object (.navApp code) app

/-- What is required of the records of a page, in the order in which it is asked for. -/
def requirements (site languages page : Datum) : List Requirement :=
  [.object .site site, .object .languages languages, .object .page page,
    .object .pageData (dataOf page), .knownLanguage languages.asMapping (langOf page)] ++
  match langOf page with
  | .str code => languageRequirements languages code
  | _ => []

theorem enforces_object (r : Record) (d : Datum) : Enforces (object r d) [.object r d] := by
  cases d with
  | null => exact List.forall_mem_singleton.2 (.inl rfl)
  | mapping m => exact List.forall_mem_singleton.2 (.inr ⟨m, rfl⟩)
  | absent | bool | int | float | str | list | tuple | scope =>
    apply Enforces.of_unmet _ rfl
    rintro (h | ⟨m, h⟩) <;> cases h

/-- A record is asked for its entries, and null for none. -/
theorem eq_asMapping_of_object (h : object r d = .ok m) : m = d.asMapping := by
  unfold object at h
  split at h
  · exact (Except.ok.inj h).symm
  · exact (Except.ok.inj h).symm
  · cases h

theorem enforces_pageLanguage (hlang : Datum.field record "lang" = .str code) :
    Enforces (pageLanguage m record)
      [.knownLanguage m (.str code), .object (.language code) (Datum.field m code)] := by
  unfold pageLanguage
  rw [hlang]
  dsimp only
  cases hfound : m.get? code with
  | none =>
    apply Enforces.of_unmet _ rfl
    rintro ⟨other, hmem, hother⟩
    obtain rfl := Datum.str.inj hother
    exact Mapping.get?_eq_none_iff.1 hfound hmem
  | some d =>
    have hfield : Datum.field m code = d := by
      rw [Datum.field, hfound]
      rfl
    rw [hfield]
    apply Enforces.cons
    · exact ⟨code, List.mem_map_of_mem (Mapping.mem_of_get? hfound), rfl⟩
    · exact (enforces_object (.language code) d).map _

theorem eq_of_pageLanguage (h : pageLanguage m record = .ok (code, language)) :
    Datum.field record "lang" = .str code ∧ code ∈ m.keys ∧
      language = (Datum.field m code).asMapping := by
  unfold pageLanguage at h
  split at h
  · next lang hlang =>
    split at h
    · cases h
    · next d hfound =>
      cases hobject : object (.language lang) d with
      | error e =>
        rw [hobject] at h
        cases h
      | ok own =>
        rw [hobject] at h
        obtain ⟨rfl, rfl⟩ := Prod.mk.inj (Except.ok.inj h)
        refine ⟨hlang, List.mem_map_of_mem (Mapping.mem_of_get? hfound), ?_⟩
        rw [Datum.field, hfound]
        exact eq_asMapping_of_object hobject
  · cases h

theorem pageLanguage_of_not_text (hlang : ∀ code, Datum.field record "lang" ≠ .str code) :
    pageLanguage m record = .error (.unknownLanguage (Datum.field record "lang")) := by
  unfold pageLanguage
  split
  · next code hcode => exact absurd hcode (hlang code)
  · rfl

/-- Each language that is listed has to be a record, the first one first. -/
theorem enforces_switcher (siteUrl path : Datum) (current default : Text)
    (es : List (Text × Datum)) :
    Enforces (switcher siteUrl path current default es)
      (es.map fun e => .object (.language e.1) e.2) := by
  induction es with
  | nil => exact nofun
  | cons e es ih =>
    obtain ⟨code, d⟩ := e
    have hcons : switcher siteUrl path current default ((code, d) :: es) =
        object (.language code) d >>= fun language =>
          (switcher siteUrl path current default es).map fun entries =>
            switcherEntry siteUrl path current default code language :: entries := by
      rw [switcher]
      cases object (.language code) d <;> rfl
    rw [hcons]
    exact (enforces_object (.language code) d).bind fun _ _ => ih.map _

theorem enforces_navEntries (code : Text) (base slug : Datum) (ds : List Datum) :
    Enforces (navEntries code base slug ds) (ds.map fun app => .object (.navApp code) app) := by
  induction ds with
  | nil => exact nofun
  | cons d ds ih =>
    have hcons : navEntries code base slug (d :: ds) =
        object (.navApp code) d >>= fun app =>
          (navEntries code base slug ds).map fun entries =>
            navEntry base slug app :: entries := by
      rw [navEntries]
      cases object (.navApp code) d <;> rfl
    rw [hcons]
    exact (enforces_object (.navApp code) d).bind fun _ _ => ih.map _

theorem items?_orElse_of_isVoid (h : d.isVoid) : (d.orElse (.list [])).items? = some [] := by
  rw [Datum.orElse, if_pos h]
  rfl

theorem items?_getD_of_isVoid (h : d.isVoid) : d.items?.getD [] = [] := by
  cases d with
  | list items | tuple items => exact List.isEmpty_iff.1 h
  | absent | null | bool | int | float | str | mapping | scope => rfl

/-- The apps that are read are those of the list, or none if they count as left out. -/
theorem appsRead_eq {items : List Datum}
    (h : (d.orElse (.list [])).items? = some items) : d.items?.getD [] = items := by
  by_cases hd : d.isVoid
  · rw [items?_orElse_of_isVoid hd] at h
    rw [items?_getD_of_isVoid hd, Option.some.inj h]
  · rw [Datum.orElse, if_neg hd] at h
    rw [h]
    rfl

/-- The apps have to be a list once what counts as left out is taken for none. -/
theorem enforces_appsList (code : Text) (d : Datum) :
    Enforces ((d.orElse (.list [])).items?.elim (.error (.appsNotAList code)) .ok)
      [.appsList code d] := by
  by_cases hvoid : d.isVoid
  · rw [items?_orElse_of_isVoid hvoid]
    exact List.forall_mem_singleton.2 (.inl hvoid)
  · rw [Datum.orElse, if_neg hvoid]
    cases hitems : d.items? with
    | none =>
      apply Enforces.of_unmet _ rfl
      rintro (h | h)
      · exact hvoid h
      · rw [hitems] at h
        cases h
    | some items =>
      refine List.forall_mem_singleton.2 (.inr ?_)
      rw [hitems]
      rfl

theorem enforces_apps (code : Text) (language : Datum) :
    Enforces (apps code language.asMapping)
      [.object (.nav code) (navOf language), .appsList code (appsOf language)] := by
  have hbind : apps code language.asMapping =
      object (.nav code) (navOf language) >>= fun nav =>
        ((Datum.field nav "apps").orElse (.list [])).items?.elim (.error (.appsNotAList code)) .ok := by
    unfold apps navOf
    cases object (.nav code) (Datum.field language.asMapping "nav") with
    | error e => rfl
    | ok nav =>
      dsimp only [bind, Except.bind]
      cases ((Datum.field nav "apps").orElse (.list [])).items? <;> rfl
  rw [hbind]
  refine (enforces_object (.nav code) (navOf language)).bind ?_
  intro nav hnav
  obtain rfl := eq_asMapping_of_object hnav
  exact enforces_appsList code (appsOf language)

theorem appRecords_of_apps {language : Datum} {items : List Datum}
    (h : apps code language.asMapping = .ok items) : appRecords language = items := by
  unfold apps at h
  split at h
  · cases h
  · next nav hnav =>
    obtain rfl := eq_asMapping_of_object hnav
    split at h
    · cases h
    · next items hitems =>
      obtain rfl := Except.ok.inj h
      exact appsRead_eq hitems

/-- The computation of the values for a page asks for what is required of its records. -/
theorem enforces_build (site languages page : Datum) :
    Enforces (build site languages page) (requirements site languages page) := by
  have hsplit : requirements site languages page =
      [.object .site site] ++ ([.object .languages languages] ++ ([.object .page page] ++
        ([.object .pageData (dataOf page)] ++
          (.knownLanguage languages.asMapping (langOf page) ::
            match langOf page with
            | .str code => languageRequirements languages code
            | _ => [])))) := rfl
  rw [hsplit]
  refine (enforces_object .site site).bind fun siteRecord _ => ?_
  refine (enforces_object .languages languages).bind fun languageRecords hlanguages => ?_
  refine (enforces_object .page page).bind fun pageRecord hpage => ?_
  obtain rfl := eq_asMapping_of_object hlanguages
  obtain rfl := eq_asMapping_of_object hpage
  refine (enforces_object .pageData (dataOf page)).bind fun data _ => ?_
  by_cases hlang : ∃ code, langOf page = .str code
  · obtain ⟨code, hcode⟩ := hlang
    have hrest : Requirement.knownLanguage languages.asMapping (langOf page) ::
        (match langOf page with
          | .str code => languageRequirements languages code
          | _ => []) =
        [.knownLanguage languages.asMapping (.str code),
          .object (.language code) (languageOf languages code)] ++
        ((languages.asMapping.entries.map fun e => .object (.language e.1) e.2) ++
          ([.object (.nav code) (navOf (languageOf languages code)),
            .appsList code (appsOf (languageOf languages code))] ++
            (appRecords (languageOf languages code)).map fun app => .object (.navApp code) app)) := by
      rw [hcode]
      simp only [languageRequirements, List.append_assoc, List.cons_append, List.nil_append]
    rw [hrest]
    refine (enforces_pageLanguage hcode).bind ?_
    rintro ⟨lang, language⟩ hlanguage
    obtain ⟨hlang, -, rfl⟩ := eq_of_pageLanguage hlanguage
    obtain rfl := Datum.str.inj (hcode.symm.trans hlang)
    refine (enforces_switcher _ _ _ _ _).bind fun _ _ => ?_
    refine (enforces_apps code (languageOf languages code)).bind fun items hitems => ?_
    rw [appRecords_of_apps hitems, ← List.append_nil (items.map _)]
    exact (enforces_navEntries _ _ _ items).bind fun _ _ => nofun
  · rw [pageLanguage_of_not_text fun code hcode => hlang ⟨code, hcode⟩]
    apply Enforces.of_unmet _ rfl
    rintro ⟨code, -, hcode⟩
    exact hlang ⟨code, hcode⟩

/-- The values for a page are built exactly if everything is as it has to be, and otherwise the message
is that of the first requirement that is not met. -/
theorem build_meets_requirements (site languages page : Datum) :
    ((∃ m, build site languages page = .ok m) ↔ ∀ r ∈ requirements site languages page, r.met) ∧
    ∀ message, (∃ e, build site languages page = .error e ∧ e.text = message) ↔
      FirstUnmet (requirements site languages page) message :=
  ⟨(enforces_build site languages page).exists_ok_iff,
    (enforces_build site languages page).exists_error_iff⟩

end PageContext
end Stencil
