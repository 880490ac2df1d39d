import Mathlib.Data.String.Basic
import Groupnet.Lib.Word

/-!
# Logical time and identifiers

`Time` is the driver's logical clock in milliseconds.  The engine never reads a
clock, every instant is handed to it.

`NodeId` and `GroupId` are strings.  A string of `2 ^ 32` bytes or more has no
encoding on the wire, whose length prefix is a `u32`, and no decoded id has one.
The bound is a field of the id, so that every id of the model can be sent.  Ids
are ordered as their strings, which is the byte order of their UTF-8.
-/

namespace Groupnet

/-- A logical instant, in milliseconds. -/
abbrev Time := Nat

/-- The last instant.  A deadline at it never comes. -/
abbrev Time.max : Time := u64Max

/-- An opaque, string-backed node identifier. -/
structure NodeId where
  str : String
  /-- The id fits a length-prefixed wire string. -/
  short : str.utf8ByteSize < 4294967296
deriving DecidableEq

/-- An opaque, string-backed group identifier. -/
structure GroupId where
  str : String
  /-- The id fits a length-prefixed wire string. -/
  short : str.utf8ByteSize < 4294967296
deriving DecidableEq

theorem NodeId.str_injective : Function.Injective NodeId.str := by
  rintro ⟨a, _⟩ ⟨b, _⟩ h
  cases h
  rfl

instance : LinearOrder NodeId := LinearOrder.lift' NodeId.str NodeId.str_injective

def NodeId.ofString? (s : String) : Option NodeId :=
  if h : s.utf8ByteSize < 4294967296 then some ⟨s, h⟩ else none

def GroupId.ofString? (s : String) : Option GroupId :=
  if h : s.utf8ByteSize < 4294967296 then some ⟨s, h⟩ else none

@[simp] theorem NodeId.ofString?_str (n : NodeId) : NodeId.ofString? n.str = some n := by
  simp [NodeId.ofString?, n.short]

@[simp] theorem GroupId.ofString?_str (g : GroupId) : GroupId.ofString? g.str = some g := by
  simp [GroupId.ofString?, g.short]

theorem utf8ByteSize_singleton_lt (c : Char) : (String.singleton c).utf8ByteSize < 4294967296 := by
  have hle := c.utf8Size_le_four
  simp only [String.utf8ByteSize_singleton]
  omega

def NodeId.ofChar (c : Char) : NodeId := ⟨String.singleton c, utf8ByteSize_singleton_lt c⟩

def GroupId.ofChar (c : Char) : GroupId := ⟨String.singleton c, utf8ByteSize_singleton_lt c⟩

end Groupnet
