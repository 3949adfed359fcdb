/-! Code points. A text may hold one half of a surrogate pair alone, which is no character. -/
namespace Stencil

/-- A character, or a surrogate by its distance from the first one. -/
inductive CodePoint where
  | scalar (c : Char)
  | surrogate (n : Fin 0x800)
deriving DecidableEq

namespace CodePoint

/-- A character is a code point. -/
instance : Coe Char CodePoint := ⟨scalar⟩

/-- The first surrogate. -/
def firstSurrogate : Nat := 0xd800

/-- The number of a code point. -/
def toNat : CodePoint → Nat
  | scalar c => c.toNat
  | surrogate n => firstSurrogate + n

/-- The code point with a number; there is none with a number above the last character's. -/
def ofNat (n : Nat) : CodePoint :=
  if h : firstSurrogate ≤ n ∧ n - firstSurrogate < 0x800 then surrogate ⟨n - firstSurrogate, h.2⟩
  else scalar (Char.ofNat n)

def isSurrogate : CodePoint → Bool
  | scalar _ => false
  | surrogate _ => true

@[simp] theorem toNat_scalar (c : Char) : (scalar c).toNat = c.toNat := rfl

/-- Code points are ordered by their numbers. -/
instance : LE CodePoint := ⟨fun c d => c.toNat ≤ d.toNat⟩

instance (c d : CodePoint) : Decidable (c ≤ d) := inferInstanceAs (Decidable (c.toNat ≤ d.toNat))

theorem le_iff {c d : CodePoint} : c ≤ d ↔ c.toNat ≤ d.toNat := Iff.rfl

theorem toNat_injective {c d : CodePoint} (h : c.toNat = d.toNat) : c = d := by
  have hchar (c : Char) (n : Fin 0x800) : c.toNat ≠ firstSurrogate + n := by
    have hvalid : c.toNat < 0xd800 ∨ 0xdfff < c.toNat ∧ c.toNat < 0x110000 := c.valid
    rw [firstSurrogate]
    omega
  cases c with
  | scalar c =>
    cases d with
    | scalar d => exact congrArg scalar (Char.toNat_inj.1 h)
    | surrogate n => exact absurd h (hchar c n)
  | surrogate n =>
    cases d with
    | scalar d => exact absurd h.symm (hchar d n)
    | surrogate m => exact congrArg surrogate (Fin.ext (Nat.add_left_cancel h))

theorem ofNat_toNat (c : CodePoint) : ofNat c.toNat = c := by
  unfold ofNat
  split
  · next h =>
    refine toNat_injective ?_
    show firstSurrogate + (c.toNat - firstSurrogate) = c.toNat
    omega
  · next h =>
    cases c with
    | scalar c => rw [toNat_scalar, Char.ofNat_toNat]
    | surrogate n => exact absurd ⟨Nat.le_add_right _ _, by simp [toNat]⟩ h

end CodePoint
end Stencil
