import Groupnet.Placement

/-!
# Deterministic load spreading

Stable hashes of the group and node ids, and a splitmix64 stream, so that nodes
that start together pick different targets while a run stays reproducible.  A
`usize` is 64 bits wide here.
-/

namespace Groupnet.Spread

open Placement

def engineSeed (group : GroupId) (localId : NodeId) : Nat :=
  mix64 (fnv1a [bytes group.str, bytes localId.str])

def pairHash (localId peer : NodeId) : Nat := mix64 (fnv1a [bytes localId.str, bytes peer.str])

def index (hash len : Nat) : Nat := hash % len

/-- `hash` as the start of a round-robin cursor. -/
def cursor (hash : Nat) : Nat := hash

structure SplitMix where
  /-- The stream's position. -/
  state : Nat
deriving DecidableEq

/-- The next 64 pseudo-random bits, and the stream after them. -/
def SplitMix.draw (r : SplitMix) : Nat × SplitMix :=
  let s := wrapAdd r.state golden
  (mix64 s, ⟨s⟩)

/-- A pseudo-random index below `len`. -/
def SplitMix.below (r : SplitMix) (len : Nat) : Nat × SplitMix :=
  (index r.draw.1 len, r.draw.2)

end Groupnet.Spread
