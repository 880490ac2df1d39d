import Groupnet.Lib.Word

/-!
# Checked arithmetic

Sums and products that have no result when a word cannot hold it.
-/

namespace Groupnet

/-- The largest value of a 32-bit word. -/
def u32Max : Nat := 4294967295

/-- The largest size.  A size is a 64-bit word. -/
def usizeMax : Nat := u64Max

def checkedAdd (bound a b : Nat) : Option Nat := if a + b ≤ bound then some (a + b) else none

def checkedMul (bound a b : Nat) : Option Nat := if a * b ≤ bound then some (a * b) else none

theorem checkedAdd_eq_some {bound m n r : Nat} (h : checkedAdd bound m n = some r) :
    m + n ≤ bound ∧ r = m + n := by
  unfold checkedAdd at h
  split at h
  · cases h
    exact ⟨‹_›, rfl⟩
  · cases h

end Groupnet
