import Mathlib.Data.Prod.Lex
import Groupnet.Id
import Groupnet.Lib.Ordered

/-!
# Deterministic placement

Weighted rendezvous hashing: every node computes the same ranking of nodes for a
key.  The hash is a fixed FNV-1a with a splitmix64 finalizer, all in wrapping
64-bit arithmetic.  A node of weight `w` has `w` tokens and scores its best one.
-/

namespace Groupnet.Placement

def bytes (s : String) : List UInt8 := s.toUTF8.data.toList

def fnvOffset : Nat := 0xcbf29ce484222325
def fnvPrime : Nat := 0x00000100000001b3
def golden : Nat := 0x9e3779b97f4a7c15

/-- One byte folded into the hash. -/
def fnvByte (h byte : Nat) : Nat := wrapMul (h ^^^ byte) fnvPrime

/-- FNV-1a over `parts`, with a separator after each so that ("ab", "c") and
("a", "bc") hash differently. -/
def fnv1a (parts : List (List UInt8)) : Nat :=
  parts.foldl (fun h part => fnvByte (part.foldl (fun h b => fnvByte h b.toNat) h) 0xff)
    fnvOffset

/-- The splitmix64 finalizer. -/
def mix64 (z : Nat) : Nat :=
  let z := wrapMul (z ^^^ (z >>> 30)) 0xbf58476d1ce4e5b9
  let z := wrapMul (z ^^^ (z >>> 27)) 0x94d049bb133111eb
  z ^^^ (z >>> 31)

variable (key : String)

def baseHash (node : NodeId) : Nat := fnv1a [bytes key, bytes node.str]

def tokenScore (node : NodeId) (token : Nat) : Nat :=
  mix64 (wrapAdd (baseHash key node) (wrapMul token golden))

def nodeScore (node : NodeId) (weight : Nat) : Nat :=
  ((List.range weight).map (tokenScore key node)).foldl max 0

def ownerScore (node : NodeId) : Nat := tokenScore key node 0

/-- The order owners are picked by: the higher score, then the smaller id. -/
abbrev Rank := Nat ×ₗ NodeIdᵒᵈ

def rank (score : Nat) (node : NodeId) : Rank := toLex (score, OrderDual.toDual node)

def Rank.node (r : Rank) : NodeId := OrderDual.ofDual (ofLex r).2

@[simp] theorem Rank.node_rank (score : Nat) (node : NodeId) : (rank score node).node = node := rfl

@[simp] theorem rank_inj {s s' : Nat} {n n' : NodeId} :
    rank s n = rank s' n' ↔ s = s' ∧ n = n' := by
  simp [rank]

/-- The last item with the greatest key. -/
def maxByKey {α β : Type*} [LinearOrder β] (key : α → β) : List α → Option α
  | [] => none
  | x :: xs =>
    match maxByKey key xs with
    | none => some x
    | some y => if key x ≤ key y then some y else some x

def ownerAmong (members : List NodeId) : Option NodeId :=
  maxByKey (fun n => rank (ownerScore key n) n) members

def owner (members : Std.TreeSet NodeId) : Option NodeId :=
  ownerAmong key members.toList

/-- The top `replicas` owners of `key`, best first.  A weight of `0` makes a node
ineligible. -/
def owners (members : Std.TreeMap NodeId Nat) (replicas : Nat) : List NodeId :=
  let ranked := (members.toList.filter fun p => 0 < p.2).map
    fun p => rank (nodeScore key p.1 p.2) p.1
  ((ranked.insertionSort (· ≥ ·)).take replicas).map Rank.node

theorem maxByKey_eq_none {α β : Type*} [LinearOrder β] {key : α → β} {l : List α}
    (h : maxByKey key l = none) : l = [] := by
  cases l with
  | nil => rfl
  | cons b l =>
    unfold maxByKey at h
    split at h
    · cases h
    · split at h <;> cases h

theorem maxByKey_spec {α β : Type*} [LinearOrder β] {key : α → β} {l : List α} {x : α}
    (h : maxByKey key l = some x) : x ∈ l ∧ ∀ y ∈ l, key y ≤ key x := by
  induction l generalizing x with
  | nil => cases h
  | cons a l ih =>
    unfold maxByKey at h
    split at h
    next hnone =>
      cases h
      rw [maxByKey_eq_none hnone]
      simp
    next y hy =>
      obtain ⟨hmem, hle⟩ := ih hy
      split at h <;> cases h
      next hay =>
        refine ⟨List.mem_cons_of_mem _ hmem, ?_⟩
        rintro z (_ | ⟨_, hz⟩)
        · exact hay
        · exact hle z hz
      next hay =>
        refine ⟨List.mem_cons_self .., ?_⟩
        rintro z (_ | ⟨_, hz⟩)
        · exact le_refl _
        · exact (hle z hz).trans (le_of_lt (not_le.mp hay))

end Groupnet.Placement
