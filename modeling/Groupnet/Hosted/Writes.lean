import Groupnet.Feed.Ring
import Groupnet.Hosted.Commit

/-!
# The hosted write path

A node's handle on one hosted write path.  It admits a write while the leadership watch
names this node, and in the committed regime once recovery has completed for the epoch,
and puts it into the feed of that epoch.  A feed is a bounded ring: it drops its oldest
writes and keeps its position, so a write's token is the epoch and its position.

`HostedWrites` is the state of one process life.
-/

namespace Groupnet

/-! ## Admission -/

/-- Why a write was refused before it entered the feed. -/
inductive HostedError where
  | notHost (epoch : Nat) (host : Option NodeId)
  | deposed (epoch : Nat)
  | recovering
deriving DecidableEq

/-- The admission verdict on what the leadership watch shows. -/
def admission (lead : Nat × Option NodeId) (me : NodeId) (lastHosted : Option Nat)
    (recovered : Bool) :
    Except HostedError Nat :=
  if lead.2 = some me then
    if recovered then .ok lead.1 else .error .recovering
  else
    match lastHosted with
    | some epoch => .error (.deposed epoch)
    | none => .error (.notHost lead.1 lead.2)

/-- Only the host the watch names is admitted, at the epoch it shows. -/
theorem eq_of_admission_ok {lead : Nat × Option NodeId} {me : NodeId} {lastHosted : Option Nat}
    {recovered : Bool} {epoch : Nat} (h : admission lead me lastHosted recovered = .ok epoch) :
    lead = (epoch, some me) := by
  unfold admission at h
  split at h
  next hhost =>
    split at h
    · cases h
      exact Prod.ext rfl hhost
    · cases h
  next => split at h <;> cases h

/-! ## The handle -/

/-- One process life's handle on a write path. -/
structure HostedWrites where
  capacity : Nat
  maxFrameBytes : Nat
  /-- Whether the path has a ledger and a recovery gate. -/
  committed : Bool
  /-- The highest epoch admitted to serve. -/
  serving : Nat
  feed : Option Ring
  feedEpoch : Nat
  lastHosted : Option Nat
  /-- The epoch the recovery gate opened for. -/
  recoveredAt : Option Nat

namespace HostedWrites

/-- A new handle. -/
def assemble (capacity maxFrameBytes : Nat) (committed : Bool) : HostedWrites :=
  ⟨capacity, maxFrameBytes, committed, 0, none, 0, none, none⟩

/-- Whether the recovery gate is open for an epoch, given what the recovery rule says of it
now.  Once open it is latched. -/
def recoveredFor (w : HostedWrites) (epoch : Nat) (verdict : Completeness) : HostedWrites × Bool :=
  if !w.committed then (w, true)
  else if w.recoveredAt = some epoch then (w, true)
  else match verdict with
    | .complete => ({ w with recoveredAt := some epoch }, true)
    | .recovering _ => (w, false)

/-- The admission verdict against the watch, with its latches. -/
def admitNow (w : HostedWrites) (me : NodeId) (lead : Nat × Option NodeId)
    (verdict : Completeness) : HostedWrites × Except HostedError Nat :=
  let (w, recovered) := if lead.2 = some me then w.recoveredFor lead.1 verdict else (w, true)
  let w := if lead.2 = some me then { w with lastHosted := some lead.1 } else w
  match admission lead me w.lastHosted recovered with
  | .ok epoch => ({ w with serving := max w.serving epoch }, .ok epoch)
  | .error e => (w, .error e)

/-- The feed of an epoch, armed fresh unless it is the current one. -/
def feedFor (w : HostedWrites) (epoch : Nat) : Ring :=
  match w.feed with
  | some ring =>
    if w.feedEpoch = epoch then ring else Ring.fresh epoch w.capacity w.maxFrameBytes
  | none => Ring.fresh epoch w.capacity w.maxFrameBytes

/-- Puts an admitted write into the feed of its epoch. -/
def publishAt (w : HostedWrites) (epoch : Nat) (key : List UInt8) :
    HostedWrites × Except HostedError WriteToken :=
  match (w.feedFor epoch).publish key with
  | (ring, some token) => ({ w with feed := some ring, feedEpoch := epoch }, .ok token)
  | (ring, none) => ({ w with feed := some ring, feedEpoch := epoch }, .error (.deposed epoch))

/-- The feed of an epoch is open and of that epoch. -/
theorem feedFor_spec {w : HostedWrites}
    (hfeed : ∀ ring, w.feed = some ring → ring.epoch = w.feedEpoch ∧ ring.isSealed = false)
    (epoch : Nat) : (w.feedFor epoch).epoch = epoch ∧ (w.feedFor epoch).isSealed = false := by
  unfold feedFor
  split
  next ring hring =>
    split
    next heq =>
      obtain ⟨hepoch, hopen⟩ := hfeed ring hring
      exact ⟨hepoch.trans heq, hopen⟩
    next => exact ⟨rfl, rfl⟩
  next => exact ⟨rfl, rfl⟩

/-- A write takes the position of the feed of its epoch. -/
theorem publishAt_spec {w : HostedWrites} {epoch : Nat} (key : List UInt8)
    (hfeed : ∀ ring, w.feed = some ring → ring.epoch = w.feedEpoch ∧ ring.isSealed = false)
    (hroom : (w.feedFor epoch).position < u64Max) :
    ∃ ring, w.publishAt epoch key = ({ w with feed := some ring, feedEpoch := epoch },
        .ok ⟨epoch, (w.feedFor epoch).position⟩) ∧
      ring.epoch = epoch ∧ ring.isSealed = false ∧
      ring.position = (w.feedFor epoch).position + 1 := by
  obtain ⟨hepoch, hopen⟩ := feedFor_spec hfeed epoch
  obtain ⟨hpos, hepoch', hseal⟩ := Ring.push_spec key hroom
  refine ⟨(w.feedFor epoch).push key, ?_, hepoch'.trans hepoch, hseal.trans hopen, hpos⟩
  unfold publishAt Ring.publish
  rw [hopen, Ring.nextToken_eq hroom.le, hepoch]
  rfl

theorem admitNow_feed (w : HostedWrites) (me : NodeId) (lead : Nat × Option NodeId)
    (verdict : Completeness) :
    (w.admitNow me lead verdict).1.feed = w.feed ∧
      (w.admitNow me lead verdict).1.feedEpoch = w.feedEpoch := by
  unfold admitNow recoveredFor
  cases verdict <;> grind

theorem admitNow_ok {w : HostedWrites} {me : NodeId} {lead : Nat × Option NodeId}
    {verdict : Completeness} {epoch : Nat} (h : (w.admitNow me lead verdict).2 = .ok epoch) :
    lead = (epoch, some me) := by
  unfold admitNow at h
  dsimp only at h
  split at h
  next e hok =>
    cases h
    exact eq_of_admission_ok hok
  next => cases h

end HostedWrites

end Groupnet
