import Mathlib.Data.List.Basic

/-!
# A register with conditional writes

A register that is never deleted is the list of the values written to it, oldest first.
Its version is their number, so the version after a write names that write for ever.
A conditional write is applied when the register is absent, or is still at the version
it was read at.
-/

namespace Groupnet

universe u

inductive WriteIf where
  /-- Nothing was written yet. -/
  | absent
  /-- The register is at this version. -/
  | matches (token : Nat)
deriving DecidableEq

/-- The values written, oldest first. -/
abbrev History (α : Type u) := List α

namespace History

variable {α : Type u} {h : History α} {x y : α} {t : Nat}

/-- The value and the version a read returns. -/
def load (h : History α) : Option (α × Nat) := h.getLast?.map fun x => (x, h.length)

/-- Whether a precondition holds. -/
def admits (h : History α) : WriteIf → Bool
  | .absent => h.isEmpty
  | .matches token => !h.isEmpty && decide (token = h.length)

/-- The value that was written at a version. -/
def At (h : History α) (t : Nat) (x : α) : Prop := 0 < t ∧ h[t - 1]? = some x

theorem At.append (hx : h.At t x) (y : α) : (h ++ [y]).At t x := by
  obtain ⟨hpos, hget⟩ := hx
  refine ⟨hpos, ?_⟩
  rw [List.getElem?_append_left (List.getElem?_eq_some_iff.mp hget).1]
  exact hget

theorem At.mem (hx : h.At t x) : x ∈ h := List.mem_of_getElem? hx.2

theorem At.unique (hx : h.At t x) (hy : h.At t y) : x = y :=
  Option.some.inj (hx.2.symm.trans hy.2)

/-- The newest value is the one at the current version. -/
theorem at_length_iff : h.At h.length x ↔ h.getLast? = some x := by
  rw [List.getLast?_eq_getElem?]
  constructor
  · exact fun hx => hx.2
  intro hx
  refine ⟨?_, hx⟩
  have hlt := (List.getElem?_eq_some_iff.mp hx).1
  omega

theorem at_of_load (hload : h.load = some (x, t)) : h.At t x ∧ t = h.length := by
  obtain ⟨y, hlast, heq⟩ := Option.map_eq_some_iff.mp hload
  cases heq
  exact ⟨at_length_iff.mpr hlast, rfl⟩

/-- A write on a version that is current replaces the newest value. -/
theorem at_of_admits (hpre : h.admits (.matches t) = true) : t = h.length ∧ ∃ x, h.At t x := by
  simp only [admits, Bool.and_eq_true, Bool.not_eq_true', decide_eq_true_eq] at hpre
  obtain ⟨hne, rfl⟩ := hpre
  refine ⟨rfl, ?_⟩
  cases hlast : h.getLast? with
  | none =>
    rw [List.getLast?_eq_none_iff.mp hlast] at hne
    cases hne
  | some x => exact ⟨x, at_length_iff.mpr hlast⟩

theorem nil_of_admits (hpre : h.admits .absent = true) : h = [] := List.isEmpty_iff.mp hpre

/-- What relates earlier values to later ones relates every other value to the newest. -/
theorem eq_or_rel_newest {R : α → α → Prop} (hh : h.Pairwise R) (hx : h.At h.length x)
    (hy : y ∈ h) : y = x ∨ R y x := by
  obtain ⟨older, rfl⟩ := List.getLast?_eq_some_iff.mp (at_length_iff.mp hx)
  rcases List.mem_append.mp hy with hy | hy
  · exact .inr ((List.pairwise_append.mp hh).2.2 y hy x (List.mem_singleton_self x))
  · exact .inl (List.mem_singleton.mp hy)

end History

end Groupnet
