import Mathlib.Order.Lattice
import Mathlib.Order.Basic

/-!
# Machine words over the naturals

A `u64` is a natural number here.  The operations of the source that saturate or
wrap are written with their bound, so that a statement about a count or an
instant says where the bound enters.  Arithmetic that neither saturates nor wraps
is plain arithmetic on `Nat`.
-/

namespace Groupnet

/-- The largest value of a 64-bit word. -/
def u64Max : Nat := 18446744073709551615

variable (a : Nat)

def satAdd (b : Nat) : Nat := min (a + b) u64Max

def satMul (b : Nat) : Nat := min (a * b) u64Max

def wrapAdd (b : Nat) : Nat := (a + b) % 18446744073709551616

def wrapMul (b : Nat) : Nat := (a * b) % 18446744073709551616

theorem satAdd_le_u64Max (b : Nat) : satAdd a b ≤ u64Max := Nat.min_le_right _ _

theorem satAdd_le_add (b : Nat) : satAdd a b ≤ a + b := Nat.min_le_left _ _

theorem satAdd_eq_add {a b : Nat} (h : a + b ≤ u64Max) : satAdd a b = a + b :=
  Nat.min_eq_left h

/-- A word is never above what is added to it. -/
theorem le_satAdd {a : Nat} (b : Nat) (h : a ≤ u64Max) : a ≤ satAdd a b :=
  Nat.le_min.mpr ⟨Nat.le_add_right a b, h⟩

theorem satAdd_mono_left {a a' : Nat} (b : Nat) (h : a ≤ a') : satAdd a b ≤ satAdd a' b := by
  unfold satAdd
  omega

/-- The successor of a word that is not the last is above it. -/
theorem lt_satAdd_one {a : Nat} (h : a < u64Max) : a < satAdd a 1 := by
  unfold satAdd
  omega

end Groupnet
