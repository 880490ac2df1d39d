import Groupnet.Hosted.Ledger

/-!
# The subscriber of a feed

A feed is gossiped as state: the frame of a writer's last writes, numbered from
`firstSeq`, and whether the writer has ended this life of the feed with a seal.  A
subscriber keeps a cursor into each peer's feed.  `reconcile` compares a frame with the
cursor and queues what the subscriber has not seen, a gap where it cannot.

A frame whose positions do not fit 64 bits is not decoded, so positions are plain numbers
here.
-/

namespace Groupnet

/-- The last writes of one life of a feed, as gossiped. -/
structure FeedFrame where
  epoch : Nat
  /-- The position of the first write shown. -/
  firstSeq : Nat
  keys : List (List UInt8)
  isSealed : Bool
deriving DecidableEq

/-- The position after the last write: the next write's, or the seal's. -/
def FeedFrame.stop (frame : FeedFrame) : Nat := frame.firstSeq + frame.keys.length

/-- One notification about a peer's feed. -/
inductive PeerWrite (K : Type) where
  | wrote (peer : NodeId) (token : WriteToken) (key : K)
  | gap (peer : NodeId) (missedThrough : WriteToken)
  /-- The life ended at `token`, and every write before it was delivered. -/
  | sealed (peer : NodeId) (token : WriteToken)
  /-- A new life after one delivered through its seal. -/
  | renewed (peer : NodeId) (sealed : WriteToken) (epoch : Nat)
deriving DecidableEq

/-- A subscriber's position in one peer's feed. -/
structure Cursor where
  epoch : Nat
  /-- The next unseen position. -/
  next : Nat
  /-- This life's seal, at `next - 1`, was delivered. -/
  isSealed : Bool
deriving DecidableEq

namespace Cursor

/-- Where a subscriber attaching to a frame starts: at its end, or past its seal. -/
def attached (frame : FeedFrame) : Cursor where
  epoch := frame.epoch
  next := frame.stop + if frame.isSealed then 1 else 0
  isSealed := frame.isSealed

/-- Where a subscriber starts with a peer it first sees later: at the front. -/
def entered (frame : FeedFrame) : Cursor := ⟨frame.epoch, frame.firstSeq, false⟩

end Cursor

section Reconcile

variable {K : Type} (node : NodeId) (decode : List UInt8 → Option K)

def deliverKeys (epoch : Nat) : Nat → List (List UInt8) → List (PeerWrite K)
  | _, [] => []
  | next, key :: rest =>
    (match decode key with
      | some k => [.wrote node ⟨epoch, next⟩ k]
      | none => []) ++ deliverKeys epoch (next + 1) rest

/-- Brings the cursor into the frame's life and to its first write.  `none` when the frame
has nothing to say. -/
def enterFrame (cursor : Cursor) (frame : FeedFrame) : Option (Cursor × List (PeerWrite K)) :=
  if frame.epoch < cursor.epoch then none
  else if cursor.epoch < frame.epoch then
    -- A delivered seal and a first write that is still visible miss nothing.
    let news : PeerWrite K :=
      if cursor.isSealed ∧ frame.firstSeq = 1 then
        .renewed node ⟨cursor.epoch, cursor.next - 1⟩ frame.epoch
      else .gap node ⟨frame.epoch, frame.firstSeq - 1⟩
    some (.entered frame, [news])
  else if cursor.isSealed then none
  else if cursor.next < frame.firstSeq then
    some ({ cursor with next := frame.firstSeq }, [.gap node ⟨frame.epoch, frame.firstSeq - 1⟩])
  else some (cursor, [])

/-- Reconciles a peer's frame with its cursor, with the events queued. -/
def reconcile (cursor : Cursor) (frame : FeedFrame) : Cursor × List (PeerWrite K) :=
  match enterFrame node cursor frame with
  | none => (cursor, [])
  | some (cursor, news) =>
    let writes := deliverKeys node decode frame.epoch cursor.next
      (frame.keys.drop (cursor.next - frame.firstSeq))
    let cursor := { cursor with next := max cursor.next frame.stop }
    if frame.isSealed ∧ cursor.next = frame.stop then
      ({ cursor with next := cursor.next + 1, isSealed := true },
        news ++ writes ++ [.sealed node ⟨frame.epoch, cursor.next⟩])
    else (cursor, news ++ writes)

end Reconcile

end Groupnet
