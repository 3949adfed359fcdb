import Stencil.Json.Read
import Stencil.Proofs.Datum.Printable
/-! What a document spells: values that hold nothing absent and no scope, and in whose objects no name
stands twice. -/
namespace Stencil.Json

open Datum (JsonLike)

variable {limit : Option Nat} {s rest : Text} {d : Datum} {ds : List Datum}
  {es : List (Text × Datum)} {fuel : Nat}

/-- Members in any order and with any names make a mapping. -/
theorem jsonLike_ofList (h : ∀ e ∈ es, e.2.JsonLike) : (Datum.mapping (.ofList es)).JsonLike :=
  .mapping (Mapping.distinct_ofList es) (Mapping.forall_merge (m := .empty) nofun h)

theorem jsonLike_words : ∀ w ∈ words, w.2.JsonLike := by
  simp only [words, List.forall_mem_cons, List.not_mem_nil, false_implies, implies_true, and_true]
  exact ⟨.null, .bool true, .bool false, .float _, .float _, .float _⟩

theorem jsonLike_readInteger {negative : Bool} (h : readInteger limit negative s = .ok d) :
    d.JsonLike := by
  unfold readInteger at h
  split at h
  · cases h
  · obtain rfl := Except.ok.inj h
    exact .int _

theorem jsonLike_readNumber (h : readNumber limit s = .ok (d, rest)) : d.JsonLike := by
  unfold readNumber at h
  dsimp only at h
  split at h
  · cases h
  · split at h
    · next whole _ _ _ =>
      cases hinteger : readInteger limit _ whole with
      | error stuck =>
        rw [hinteger] at h
        cases h
      | ok d' =>
        rw [hinteger] at h
        obtain ⟨rfl, -⟩ := Prod.mk.inj (Except.ok.inj h)
        exact jsonLike_readInteger hinteger
    · obtain ⟨rfl, -⟩ := Prod.mk.inj (Except.ok.inj h)
      exact .float _

theorem jsonLike_readScalar (h : readScalar limit s = .ok (d, rest)) : d.JsonLike := by
  unfold readScalar at h
  split at h
  · next result hword =>
    obtain ⟨w, hw, hread⟩ := List.exists_of_findSome?_eq_some hword
    obtain ⟨after, -, rfl⟩ := Option.map_eq_some_iff.1 hread
    obtain ⟨rfl, -⟩ := Prod.mk.inj (Except.ok.inj h)
    exact jsonLike_words w hw
  · exact jsonLike_readNumber h

/-- A value is such a value if the items and members in it are. -/
theorem jsonLike_readValue_succ
    (hitems : ∀ s ds rest, readItems limit fuel s = .ok (ds, rest) → ∀ d ∈ ds, d.JsonLike)
    (hmembers : ∀ s es rest, readMembers limit fuel s = .ok (es, rest) → ∀ e ∈ es, e.2.JsonLike)
    (h : readValue limit (fuel + 1) s = .ok (d, rest)) : d.JsonLike := by
  simp only [readValue] at h
  split at h
  · split at h
    · cases h
    · obtain ⟨rfl, -⟩ := Prod.mk.inj (Except.ok.inj h)
      exact .str _
  · split at h
    · obtain ⟨rfl, -⟩ := Prod.mk.inj (Except.ok.inj h)
      exact .list nofun
    · split at h
      · cases h
      · next items _ hread =>
        obtain ⟨rfl, -⟩ := Prod.mk.inj (Except.ok.inj h)
        exact .list (hitems _ _ _ hread)
  · split at h
    · obtain ⟨rfl, -⟩ := Prod.mk.inj (Except.ok.inj h)
      exact Datum.jsonLike_empty
    · split at h
      · cases h
      · next members _ hread =>
        obtain ⟨rfl, -⟩ := Prod.mk.inj (Except.ok.inj h)
        exact jsonLike_ofList (hmembers _ _ _ hread)
  · exact jsonLike_readScalar h

theorem jsonLike_readItems_succ
    (hvalue : ∀ s d rest, readValue limit fuel s = .ok (d, rest) → d.JsonLike)
    (hitems : ∀ s ds rest, readItems limit fuel s = .ok (ds, rest) → ∀ d ∈ ds, d.JsonLike)
    (h : readItems limit (fuel + 1) s = .ok (ds, rest)) : ∀ d ∈ ds, d.JsonLike := by
  simp only [readItems] at h
  split at h
  · cases h
  · next first after hfirst =>
    have hfirst := hvalue _ _ _ hfirst
    split at h
    · obtain ⟨rfl, -⟩ := Prod.mk.inj (Except.ok.inj h)
      exact List.forall_mem_singleton.2 hfirst
    · split at h
      · cases h
      · next others _ hothers =>
        obtain ⟨rfl, -⟩ := Prod.mk.inj (Except.ok.inj h)
        exact List.forall_mem_cons.2 ⟨hfirst, hitems _ _ _ hothers⟩
    · cases h

theorem jsonLike_readMembers_succ
    (hvalue : ∀ s d rest, readValue limit fuel s = .ok (d, rest) → d.JsonLike)
    (hmembers : ∀ s es rest, readMembers limit fuel s = .ok (es, rest) → ∀ e ∈ es, e.2.JsonLike)
    (h : readMembers limit (fuel + 1) s = .ok (es, rest)) : ∀ e ∈ es, e.2.JsonLike := by
  simp only [readMembers] at h
  split at h
  · split at h
    · cases h
    · split at h
      · split at h
        · cases h
        · next first after hfirst =>
          have hfirst := hvalue _ _ _ hfirst
          split at h
          · obtain ⟨rfl, -⟩ := Prod.mk.inj (Except.ok.inj h)
            exact List.forall_mem_singleton.2 hfirst
          · split at h
            · cases h
            · next others _ hothers =>
              obtain ⟨rfl, -⟩ := Prod.mk.inj (Except.ok.inj h)
              exact List.forall_mem_cons.2 ⟨hfirst, hmembers _ _ _ hothers⟩
          · cases h
      · cases h
  · cases h

/-- So it is at every depth. -/
theorem jsonLike_reading (limit : Option Nat) (fuel : Nat) :
    (∀ s d rest, readValue limit fuel s = .ok (d, rest) → d.JsonLike) ∧
    (∀ s ds rest, readItems limit fuel s = .ok (ds, rest) → ∀ d ∈ ds, d.JsonLike) ∧
    ∀ s es rest, readMembers limit fuel s = .ok (es, rest) → ∀ e ∈ es, e.2.JsonLike := by
  induction fuel with
  | zero => exact ⟨nofun, nofun, nofun⟩
  | succ fuel ih =>
    obtain ⟨hvalue, hitems, hmembers⟩ := ih
    exact ⟨fun _ _ _ => jsonLike_readValue_succ hitems hmembers,
      fun _ _ _ => jsonLike_readItems_succ hvalue hitems,
      fun _ _ _ => jsonLike_readMembers_succ hvalue hmembers⟩

theorem jsonLike_read (h : read limit s = .ok d) : d.JsonLike := by
  have hdocument : readDocument limit s = .ok d := by
    cases hread : readDocument limit s with
    | error stuck =>
      rw [read, hread] at h
      cases h
    | ok d' =>
      rw [read, hread] at h
      cases h
      rfl
  unfold readDocument at hdocument
  split at hdocument
  · cases hdocument
  · split at hdocument
    · cases hdocument
    · next hvalue =>
      split at hdocument
      · obtain rfl := Except.ok.inj hdocument
        exact (jsonLike_reading limit _).1 _ _ _ hvalue
      · cases hdocument

end Stencil.Json
