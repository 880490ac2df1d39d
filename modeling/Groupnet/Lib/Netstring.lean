import Mathlib.Data.String.Basic
import Mathlib.Data.List.Basic

/-!
# Length-prefixed text

A string behind its length in bytes, in decimal, and a colon.  The length says where the
string ends, so that it is read off the front of a text without a scan for a separator, and
may hold any character.
-/

namespace Groupnet.Netstring

/-- The string behind its length. -/
def put (s : String) : String := s.utf8ByteSize.repr ++ ":" ++ s

theorem split_at_first {α : Type} {c : α} {xs xs' ys ys' : List α} (hc : c ∉ xs) (hc' : c ∉ xs')
    (h : xs ++ c :: ys = xs' ++ c :: ys') : xs = xs' ∧ ys = ys' := by
  induction xs generalizing xs' with
  | nil =>
    cases xs' with
    | nil => exact ⟨rfl, (List.cons.inj h).2⟩
    | cons x xs' =>
      cases h
      exact absurd List.mem_cons_self hc'
  | cons x xs ih =>
    cases xs' with
    | nil =>
      cases h
      exact absurd List.mem_cons_self hc
    | cons x' xs' =>
      obtain ⟨rfl, htail⟩ := List.cons.inj h
      obtain ⟨rfl, rfl⟩ := ih (fun hmem => hc (List.mem_cons_of_mem _ hmem))
        (fun hmem => hc' (List.mem_cons_of_mem _ hmem)) htail
      exact ⟨rfl, rfl⟩

/-- A number is written without a colon. -/
theorem colon_notMem_repr (n : Nat) : ':' ∉ n.repr.toList := by
  intro hmem
  rw [Nat.toList_repr] at hmem
  cases Nat.isDigit_of_mem_toDigits (by decide) (by decide) hmem

/-- Of two strings of one length at the front of a text, one is the other. -/
theorem front_unique {s s' t t' : String} (hsize : s.utf8ByteSize = s'.utf8ByteSize)
    (h : s ++ t = s' ++ t') : s = s' ∧ t = t' := by
  suffices hs : s = s' by
    subst hs
    exact ⟨rfl, (String.append_right_inj s).mp h⟩
  have hextends : ∀ {a b : String} {more : List Char}, a.utf8ByteSize = b.utf8ByteSize →
      b.toList = a.toList ++ more → a = b := by
    intro a b more hab hmore
    have hb : b = a ++ String.ofList more := by
      rw [← String.toList_inj, String.toList_append, String.toList_ofList]
      exact hmore
    have hzero : (String.ofList more).utf8ByteSize = 0 := by
      rw [hb, String.utf8ByteSize_append] at hab
      omega
    rw [hb, String.utf8ByteSize_eq_zero_iff.mp hzero, String.append_empty]
  have hlist := congrArg String.toList h
  rw [String.toList_append, String.toList_append, List.append_eq_append_iff] at hlist
  rcases hlist with ⟨more, hmore, -⟩ | ⟨more, hmore, -⟩
  · exact hextends hsize hmore
  · exact (hextends hsize.symm hmore).symm

/-- A text starts with at most one length-prefixed string. -/
theorem put_unique {s s' t t' : String} (h : put s ++ t = put s' ++ t') : s = s' ∧ t = t' := by
  have hlist := congrArg String.toList h
  simp only [put, String.toList_append, List.append_assoc] at hlist
  obtain ⟨hlen, hrest⟩ := split_at_first (colon_notMem_repr _) (colon_notMem_repr _) hlist
  have hsize : s.utf8ByteSize = s'.utf8ByteSize := by
    have hread := congrArg (fun digits => Nat.ofDigitChars 10 digits 0) hlen
    simpa [Nat.toList_repr] using hread
  refine front_unique hsize ?_
  rw [← String.toList_inj, String.toList_append, String.toList_append]
  exact hrest

end Groupnet.Netstring
