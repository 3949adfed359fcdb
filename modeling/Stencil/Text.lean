import Stencil.Text.CodePoint
/-! Text as a sequence of code points, and the few operations every other module needs. -/
namespace Stencil

/-- A text is the list of its code points, so offsets and lengths count code points. -/
abbrev Text := List CodePoint

/-- A literal may be written as a string. -/
instance : Coe String Text := ⟨fun s => s.toList.map .scalar⟩

namespace Text

variable {c : CodePoint} {s t : Text}

theorem notMem_cons {d : CodePoint} : c ∉ d :: s ↔ d ≠ c ∧ c ∉ s := by
  rw [List.mem_cons, not_or, ne_comm]

/-- The pieces between the occurrences of `c`; there is always at least one. -/
def splitOn (c : CodePoint) : Text → List Text
  | [] => [[]]
  | d :: s =>
    if d = c then [] :: splitOn c s
    else match splitOn c s with
      | [] => [[d]]
      | p :: ps => (d :: p) :: ps

/-- The pieces in order with `sep` between neighbours. -/
def join (sep : Text) : List Text → Text
  | [] => []
  | [p] => p
  | p :: ps => p ++ sep ++ join sep ps

/-- The longest beginning whose code points satisfy `p`, and the rest. -/
def splitWhile (p : CodePoint → Bool) (s : Text) : Text × Text := (s.takeWhile p, s.dropWhile p)

/-- Every occurrence of the code point `c` becomes the text `t`. -/
def replace (s : Text) (c : CodePoint) (t : Text) : Text :=
  s.flatMap fun d => if d = c then t else [d]

/-- The digits of a natural number in a base. -/
def digits (base n : Nat) : Text := (Nat.toDigits base n).map .scalar

/-- The decimal digits of a natural number. -/
def ofNat (n : Nat) : Text := digits 10 n

/-- The decimal digits of an integer, after a minus sign if it is negative. Integers are taken to have
no more digits than the limit for numerals lets be printed. -/
def ofInt : Int → Text
  | .ofNat n => ofNat n
  | .negSucc n => '-' :: ofNat (n + 1)

def zeros (n : Nat) : Text := List.replicate n '0'

/-- `n` in lower-case hexadecimal, padded with zeros to at least `width` digits. -/
def ofHex (width n : Nat) : Text :=
  let hex := digits 16 n
  zeros (width - hex.length) ++ hex

/-- Order by code point, the first difference deciding. -/
def le : Text → Text → Bool
  | [], _ => true
  | _ :: _, [] => false
  | c :: s, d :: t => c.toNat < d.toNat || (c == d && le s t)

/-- The texts in order of their code points. -/
def sort (ts : List Text) : List Text := ts.mergeSort le

theorem splitOn_ne_nil (c : CodePoint) (s : Text) : splitOn c s ≠ [] := by
  cases s with
  | nil => simp [splitOn]
  | cons d s =>
    simp only [splitOn]
    split
    · simp
    · split <;> simp

/-- The pieces hold everything except the separators. -/
theorem join_splitOn (c : CodePoint) (s : Text) : join [c] (splitOn c s) = s := by
  induction s with
  | nil => rfl
  | cons d s ih =>
    have hne := splitOn_ne_nil c s
    simp only [splitOn]
    split
    · next h =>
      subst h
      cases hs : splitOn d s with
      | nil => exact absurd hs hne
      | cons p ps => rw [hs] at ih; simp [join, ih]
    · cases hs : splitOn c s with
      | nil => exact absurd hs hne
      | cons p ps =>
        rw [hs] at ih
        cases ps with
        | nil => simpa [join] using ih
        | cons q qs => simpa [join] using ih

theorem splitOn_of_notMem (h : c ∉ s) : splitOn c s = [s] := by
  induction s with
  | nil => rfl
  | cons d s ih =>
    simp only [List.mem_cons, not_or] at h
    simp [splitOn, Ne.symm h.1, ih h.2]

/-- The pieces on both sides of a separator are found apart. -/
theorem splitOn_append (c : CodePoint) (s t : Text) :
    splitOn c (s ++ c :: t) = splitOn c s ++ splitOn c t := by
  induction s with
  | nil => simp [splitOn]
  | cons d s ih =>
    obtain ⟨p, ps, hs⟩ := List.exists_cons_of_ne_nil (splitOn_ne_nil c s)
    by_cases hd : d = c
    · simp [splitOn, hd, ih]
    · simp [splitOn, hd, ih, hs]

/-- A text that starts with no separator starts the first piece. -/
theorem splitOn_append_cons (h : c ∉ s) : splitOn c (s ++ c :: t) = s :: splitOn c t := by
  rw [splitOn_append, splitOn_of_notMem h, List.singleton_append]

/-- Pieces without separators are found again. -/
theorem splitOn_join {ps : List Text} (hne : ps ≠ []) (h : ∀ p ∈ ps, c ∉ p) :
    splitOn c (join [c] ps) = ps := by
  induction ps with
  | nil => exact absurd rfl hne
  | cons p ps ih =>
    have hp : c ∉ p := h p List.mem_cons_self
    cases ps with
    | nil => exact splitOn_of_notMem hp
    | cons q qs =>
      have hrest := ih (List.cons_ne_nil q qs) fun p hp => h p (List.mem_cons_of_mem _ hp)
      show splitOn c (p ++ [c] ++ join [c] (q :: qs)) = _
      rw [List.append_assoc, List.singleton_append, splitOn_append_cons hp, hrest]

/-- The two parts are the whole text. -/
theorem append_of_splitWhile {p : CodePoint → Bool} {u v : Text} (h : splitWhile p s = (u, v)) :
    u ++ v = s := by
  obtain ⟨rfl, rfl⟩ := Prod.mk.inj h
  exact List.takeWhile_append_dropWhile

/-- A beginning ends where it is not carried on. -/
theorem splitWhile_append {p : CodePoint → Bool} (hs : ∀ c ∈ s, p c) (ht : ∀ c ∈ t.head?, p c = false) :
    splitWhile p (s ++ t) = (s, t) := by
  have hstop : t.takeWhile p = [] ∧ t.dropWhile p = t := by
    cases t with
    | nil => exact ⟨rfl, rfl⟩
    | cons c t =>
      have hc := ht c rfl
      simp [hc]
  rw [splitWhile, List.takeWhile_append_of_pos hs, List.dropWhile_append_of_pos hs, hstop.1, hstop.2,
    List.append_nil]

@[simp] theorem replace_nil (c : CodePoint) (t : Text) : replace [] c t = [] := rfl

theorem replace_append (s u : Text) (c : CodePoint) (t : Text) :
    replace (s ++ u) c t = replace s c t ++ replace u c t := by
  simp [replace]

theorem replace_cons_self (c : CodePoint) (s t : Text) : replace (c :: s) c t = t ++ replace s c t := by
  simp [replace]

theorem replace_cons_of_ne {d : CodePoint} (h : d ≠ c) (s t : Text) :
    replace (d :: s) c t = d :: replace s c t := by
  simp [replace, h]

theorem replace_of_notMem (h : c ∉ s) : replace s c t = s := by
  induction s with
  | nil => rfl
  | cons d s ih =>
    simp only [List.mem_cons, not_or] at h
    rw [replace_cons_of_ne (Ne.symm h.1), ih h.2]

theorem replace_append_of_notMem (h : c ∉ s) (u t : Text) :
    replace (s ++ u) c t = s ++ replace u c t := by
  rw [replace_append, replace_of_notMem h]

end Text
end Stencil
