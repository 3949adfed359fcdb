import Stencil.Proofs.Markup.Span
/-! Markup that is read from left to right: at each place either some markup starts and is read as a
whole, or one character is left as it is. Bold text and links are found in this way. -/
namespace Stencil.Markup

/-- A kind of markup: what is read at the beginning of a text that starts with it, and what
follows. -/
structure Rule (α : Type) where
  read : Text → Option (α × Text)
  shorter : ∀ {s x after}, read s = some (x, after) → after.length < s.length

/-- A part of a text: a character that is left as it is, or markup. -/
inductive Part (α : Type) where
  | char (c : CodePoint)
  | mark (x : α)

namespace Part

variable {α : Type}

/-- The part where markup is written in some way. -/
def text (write : α → Text) : Part α → Text
  | .char c => [c]
  | .mark x => write x

def mark? : Part α → Option α
  | .char _ => none
  | .mark x => some x

end Part

namespace Rule

variable {α : Type} {r : Rule α} {write source : α → Text} {kind : α → Prop}
  {c : CodePoint} {x : α} {s t after : Text}

/-- The division of a text, the markup that is read first going before what starts within it. -/
def parts (r : Rule α) (s : Text) : List (Part α) :=
  match s with
  | [] => []
  | c :: rest =>
    match h : r.read (c :: rest) with
    | some (x, after) =>
      have := r.shorter h
      .mark x :: r.parts after
    | none => .char c :: r.parts rest
termination_by s.length
decreasing_by
  · exact this
  · exact Nat.lt_succ_self _

/-- The text with its markup written in some way. -/
def rewrite (r : Rule α) (write : α → Text) (s : Text) : Text :=
  (r.parts s).flatMap (Part.text write)

/-- The markup in a text. -/
def marks (r : Rule α) (s : Text) : List α := (r.parts s).filterMap Part.mark?

theorem read_nil (r : Rule α) : r.read [] = none := by
  cases hread : r.read [] with
  | none => rfl
  | some found => exact absurd (r.shorter hread) (Nat.not_lt_zero _)

@[simp] theorem parts_nil (r : Rule α) : r.parts [] = [] := by
  rw [parts]

theorem parts_of_none (h : r.read (c :: s) = none) : r.parts (c :: s) = .char c :: r.parts s := by
  rw [parts]
  split
  · next hread => rw [h] at hread; cases hread
  · rfl

theorem parts_of_read (h : r.read s = some (x, after)) : r.parts s = .mark x :: r.parts after := by
  cases s with
  | nil => exact absurd (r.shorter h) (Nat.not_lt_zero _)
  | cons c s =>
    rw [parts]
    split
    · next hread =>
      rw [h] at hread
      obtain ⟨rfl, rfl⟩ := Prod.mk.inj (Option.some.inj hread)
      rfl
    · next hread => rw [h] at hread; cases hread

/-- Induction along the division of a text. -/
theorem induction {P : Text → Prop} (r : Rule α) (nil : P [])
    (char : ∀ c s, r.read (c :: s) = none → P s → P (c :: s))
    (mark : ∀ s x after, r.read s = some (x, after) → P after → P s) (s : Text) : P s := by
  induction hlength : s.length using Nat.strongRecOn generalizing s with
  | ind n ih =>
    subst hlength
    cases s with
    | nil => exact nil
    | cons c s =>
      cases hread : r.read (c :: s) with
      | none => exact char c s hread (ih s.length (Nat.lt_succ_self _) s rfl)
      | some found =>
        obtain ⟨x, after⟩ := found
        exact mark _ x after hread (ih after.length (r.shorter hread) after rfl)

@[simp] theorem rewrite_nil (r : Rule α) (write : α → Text) : r.rewrite write [] = [] := by
  simp [rewrite]

theorem rewrite_of_none (h : r.read (c :: s) = none) :
    r.rewrite write (c :: s) = c :: r.rewrite write s := by
  rw [rewrite, parts_of_none h]
  rfl

theorem rewrite_of_read (h : r.read s = some (x, after)) :
    r.rewrite write s = write x ++ r.rewrite write after := by
  rw [rewrite, parts_of_read h]
  rfl

@[simp] theorem marks_nil (r : Rule α) : r.marks [] = [] := by
  simp [marks]

theorem marks_of_none (h : r.read (c :: s) = none) : r.marks (c :: s) = r.marks s := by
  rw [marks, parts_of_none h]
  rfl

theorem marks_of_read (h : r.read s = some (x, after)) : r.marks s = x :: r.marks after := by
  rw [marks, parts_of_read h]
  rfl

/-- A rule reads markup that is spelled in one way and is of some kind, and wherever there is such
markup it reads some. -/
structure Reads (r : Rule α) (source : α → Text) (kind : α → Prop) : Prop where
  spelled : ∀ {s x after}, r.read s = some (x, after) → s = source x ++ after ∧ kind x
  found : ∀ {x}, kind x → ∀ t, (r.read (source x ++ t)).isSome

/-- Nothing is lost: the parts of a text spell it. -/
theorem Reads.rewrite_source (h : r.Reads source kind) (s : Text) : r.rewrite source s = s := by
  induction s using r.induction with
  | nil => exact r.rewrite_nil source
  | char c s hread ih => rw [rewrite_of_none hread, ih]
  | mark s x after hread ih => rw [rewrite_of_read hread, ih, ← (h.spelled hread).1]

theorem Reads.of_mem_marks (h : r.Reads source kind) (hx : x ∈ r.marks s) : kind x := by
  induction s using r.induction with
  | nil =>
    rw [marks_nil] at hx
    cases hx
  | char c s hread ih =>
    rw [marks_of_none hread] at hx
    exact ih hx
  | mark s y after hread ih =>
    rw [marks_of_read hread] at hx
    rcases List.mem_cons.1 hx with rfl | hx
    · exact (h.spelled hread).2
    · exact ih hx

/-- What is read on a line does not depend on the lines that follow. -/
def KeepsToLine (r : Rule α) : Prop :=
  ∀ s t, r.read (s ++ ↑ '\n' :: t) =
    (r.read s).map fun (x, after) => (x, after ++ ↑ '\n' :: t)

/-- The division of a text is that of its lines, one after the other. -/
theorem parts_append_newline (h : r.KeepsToLine) (s t : Text) :
    r.parts (s ++ ↑ '\n' :: t) = r.parts s ++ .char '\n' :: r.parts t := by
  induction s using r.induction with
  | nil =>
    have hnewline := h [] t
    rw [read_nil, Option.map_none] at hnewline
    rw [List.nil_append, parts_of_none hnewline, parts_nil, List.nil_append]
  | char c s hread ih =>
    have hline := h (c :: s) t
    rw [hread, Option.map_none, List.cons_append] at hline
    rw [List.cons_append, parts_of_none hline, ih, parts_of_none hread, List.cons_append]
  | mark s x after hread ih =>
    have hline := h s t
    rw [hread, Option.map_some] at hline
    rw [parts_of_read hline, ih, parts_of_read hread, List.cons_append]

theorem rewrite_append_newline (h : r.KeepsToLine) (write : α → Text) (s t : Text) :
    r.rewrite write (s ++ ↑ '\n' :: t) = r.rewrite write s ++ ↑ '\n' :: r.rewrite write t := by
  rw [rewrite, parts_append_newline h, List.flatMap_append]
  rfl

/-- A text in which nothing starts, whatever follows it. -/
def Skips (r : Rule α) (s : Text) : Prop := ∀ t, r.parts (s ++ t) = s.map .char ++ r.parts t

theorem skips_nil (r : Rule α) : r.Skips [] := fun _ => rfl

theorem Skips.cons (hs : r.Skips s) (h : ∀ t, r.read (c :: (s ++ t)) = none) :
    r.Skips (c :: s) := by
  intro t
  rw [List.cons_append, parts_of_none (h t), hs t, List.map_cons, List.cons_append]

theorem Skips.append (hs : r.Skips s) (ht : r.Skips t) : r.Skips (s ++ t) := by
  intro u
  rw [List.append_assoc, hs, ht, List.map_append, List.append_assoc]

theorem skips_of_forall (h : ∀ c ∈ s, ∀ t, r.read (c :: t) = none) : r.Skips s := by
  induction s with
  | nil => exact r.skips_nil
  | cons c s ih =>
    have hs := ih fun d hd => h d (List.mem_cons_of_mem c hd)
    exact hs.cons fun t => h c List.mem_cons_self (s ++ t)

theorem Skips.rewrite_append (hs : r.Skips s) (write : α → Text) (t : Text) :
    r.rewrite write (s ++ t) = s ++ r.rewrite write t := by
  have hchars : (s.map Part.char).flatMap (Part.text write) = s := by
    rw [List.flatMap_map]
    exact List.flatMap_singleton' s
  rw [rewrite, hs, List.flatMap_append, hchars]
  rfl

theorem Skips.marks_append (hs : r.Skips s) (t : Text) : r.marks (s ++ t) = r.marks t := by
  have hchars : (s.map (Part.char (α := α))).filterMap Part.mark? = [] := by
    rw [List.filterMap_map]
    exact List.filterMap_eq_nil_iff.2 fun _ _ => rfl
  rw [marks, hs, List.filterMap_append, hchars]
  rfl

/-- Some markup is read at one of the places of a text. -/
def Occurs (r : Rule α) (s : Text) : Prop := ∃ t, t <:+ s ∧ (r.read t).isSome

theorem not_occurs_cons (h : ¬ r.Occurs (c :: s)) : r.read (c :: s) = none ∧ ¬ r.Occurs s := by
  constructor
  · cases hread : r.read (c :: s) with
    | none => rfl
    | some found => exact absurd ⟨c :: s, List.suffix_rfl, by rw [hread]; rfl⟩ h
  · rintro ⟨t, ht, hread⟩
    exact h ⟨t, ht.trans (List.suffix_cons c s), hread⟩

theorem Reads.occurs_iff (h : r.Reads source kind) :
    r.Occurs s ↔ ∃ x, kind x ∧ source x <:+: s := by
  constructor
  · rintro ⟨t, ⟨before, rfl⟩, hread⟩
    obtain ⟨⟨x, after⟩, hread⟩ := Option.isSome_iff_exists.1 hread
    obtain ⟨rfl, hx⟩ := h.spelled hread
    exact ⟨x, hx, before, after, List.append_assoc _ _ _⟩
  · rintro ⟨x, hx, before, after, rfl⟩
    exact ⟨source x ++ after, ⟨before, (List.append_assoc _ _ _).symm⟩, h.found hx after⟩

theorem rewrite_of_not_occurs (h : ¬ r.Occurs s) : r.rewrite write s = s := by
  induction s with
  | nil => exact r.rewrite_nil write
  | cons c s ih =>
    obtain ⟨hread, hs⟩ := not_occurs_cons h
    rw [rewrite_of_none hread, ih hs]

end Rule
end Stencil.Markup
