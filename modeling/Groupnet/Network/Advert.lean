import Groupnet.Network.Fragment

/-!
# Router frames

A router sends two kinds of frames.  An advert names a path and its cost, and data carries a payload
of one of three kinds.  Integers are in network byte order.  A node id is its UTF-8 behind one byte
of length, and is not empty.  A path with a node twice is refused.
-/

namespace Groupnet.Network

open Codec

/-- Where an advert stands in its sender's history. -/
structure AdvertId where
  epoch : Nat
  nonce : List UInt8
  sequence : Nat
deriving DecidableEq

inductive PayloadKind where
  | message
  | tunnel
  | application (protocol : Nat)
deriving DecidableEq

inductive Frame where
  | advert (id : AdvertId) (cost : Nat) (path : List NodeId)
  | data (kind : PayloadKind) (hops : Nat) (id : List UInt8) (sender receiver : NodeId)
      (payload : List UInt8)

/-- Reads all that is left. -/
def takeRest : Get (List UInt8) := fun cur => some (cur, [])

def takeId : Get NodeId := do
  let length ← takeU8
  guard (length ≠ 0)
  let part ← takeBytes length.toNat
  let str ← (String.fromUTF8? ⟨part.toArray⟩ : Option String)
  (NodeId.ofString? str : Option NodeId)

def getPath : Nat → List NodeId → Get (List NodeId)
  | 0, path => pure path
  | n + 1, path => do
    let node ← takeId
    guard (node ∉ path)
    getPath n (path ++ [node])

def getKind (kind : UInt8) : Get PayloadKind :=
  if kind = 1 then pure .message
  else if kind = 2 then pure .tunnel
  else if kind = 3 then do
    let protocol ← getBE 2
    pure (.application protocol)
  else failure

def getAdvert (maxHops : Nat) : Get Frame := do
  let epoch ← getBE 8
  let nonce ← takeBytes 8
  let sequence ← getBE 8
  let cost ← getBE 4
  let length ← takeU8
  guard (length ≠ 0 ∧ length.toNat ≤ maxHops)
  let path ← getPath length.toNat []
  pure (.advert ⟨epoch, nonce, sequence⟩ cost path)

def getData (kind : UInt8) (maxHops : Nat) : Get Frame := do
  let kind ← getKind kind
  let hops ← takeU8
  let id ← takeBytes 16
  guard (hops ≠ 0 ∧ hops.toNat ≤ maxHops)
  let sender ← takeId
  let receiver ← takeId
  let payload ← takeRest
  pure (.data kind hops.toNat id sender receiver payload)

def getFrame (magic : List UInt8) (maxHops : Nat) : Get Frame := do
  let found ← takeBytes 4
  let kind ← takeU8
  guard (found = magic)
  if kind = 0 then getAdvert maxHops else getData kind maxHops

def decodeBounded (bytes magic : List UInt8) (maxFrame maxHops : Nat) : Option Frame :=
  if maxFrame < bytes.length then none
  else match getFrame magic maxHops bytes with
    | some (frame, []) => some frame
    | _ => none

/-! ## Paths -/

theorem yields_guard {c : Prop} [Decidable c] {α : Type} {p : Get α} {P : α → Prop}
    (h : c → Yields p P) : Yields (guard c >>= fun _ => p) P := by
  by_cases hc : c
  · simpa [guard, hc] using h hc
  · simpa [guard, hc] using yields_failure P

theorem yields_getPath (n : Nat) {path : List NodeId} (h : path.Nodup) :
    Yields (getPath n path) List.Nodup := by
  induction n generalizing path with
  | zero => exact .pure h
  | succ n ih =>
    refine .bind (.any _) fun node _ => yields_guard fun hnode => ih ?_
    rw [List.nodup_append]
    refine ⟨h, List.nodup_singleton _, fun a ha b hb => ?_⟩
    rintro rfl
    exact hnode (List.mem_singleton.mp hb ▸ ha)

/-- The path of an advert has no node twice. -/
def Frame.LoopFree : Frame → Prop
  | .advert _ _ path => path.Nodup
  | .data .. => True

theorem yields_getFrame (magic : List UInt8) (maxHops : Nat) :
    Yields (getFrame magic maxHops) Frame.LoopFree := by
  refine .bind (.any _) fun _ _ => .bind (.any _) fun kind _ => yields_guard fun _ => ?_
  split
  · refine .bind (.any _) fun _ _ => .bind (.any _) fun _ _ => .bind (.any _) fun _ _ =>
      .bind (.any _) fun _ _ => .bind (.any _) fun length _ => yields_guard fun _ => ?_
    exact .bind (yields_getPath _ List.nodup_nil) fun path hpath => .pure hpath
  refine .bind (.any _) fun _ _ => .bind (.any _) fun _ _ => .bind (.any _) fun _ _ =>
    yields_guard fun _ => ?_
  exact .bind (.any _) fun _ _ => .bind (.any _) fun _ _ => .bind (.any _) fun _ _ =>
    .pure trivial

theorem decodeBounded_loopFree {bytes magic : List UInt8} {maxFrame maxHops : Nat} {frame : Frame}
    (h : decodeBounded bytes magic maxFrame maxHops = some frame) : frame.LoopFree := by
  unfold decodeBounded at h
  split at h
  · cases h
  split at h
  · rename_i frame' hframe
    cases h
    exact yields_getFrame magic maxHops _ _ _ hframe
  · cases h

end Groupnet.Network
