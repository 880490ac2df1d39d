import Groupnet.Engine.AntiEntropy

/-!
# Failure detection and reaping

One probe is outstanding at a time.  A direct miss enlists indirect probers, an
indirect miss suspects the target.  A suspect past its window is declared dead, a
dead member past the reap window is forgotten, and an entry past its deadline is
dropped.  A tick looks only at the members the deadline index lists as due.
-/

namespace Groupnet

open Wire (Frame)

namespace GroupEngine

variable (e : GroupEngine)

/-- A bare probe frame. -/
def sendProbe (dest : NodeId) (kind : Wire.Kind) (target : Option NodeId) :
    Effect :=
  .send dest (Frame.bare kind e.group target)

/-- Sends the next liveness probe. -/
def probe (now : Time) : Outcome :=
  if e.pending.isSome then (e, [])
  else
    let cursor := e.probeCursor
    let ringed := e.probeRing
    let e := ringed.1
    match ringed.2[cursor % ringed.2.length]? with
    | none => (e, [])
    | some target =>
      let e := { e with
        probeCursor := wrapAdd e.probeCursor 1
        pending := some ⟨target, satAdd now e.config.probeTimeoutMs, .direct⟩ }
      (e, [e.sendProbe target .ping none])

/-- Marks `target` suspect from this node's own probe and tells it so. -/
def suspect (e : GroupEngine) (target : NodeId) (now : Time) : Outcome :=
  let window := e.config.suspectTimeoutMs
  let every := e.config.probeTimeoutMs
  match e.members[target]? with
  | none => (e, [])
  | some m =>
    if m.status = .alive then
      let m := (m.adoptStatus .suspect now).suspectHere now window every
      let e := { e with members := e.members.insert target m }.stamp target
      let out := Emit.andThen (e, [.membershipChanged]) recomputeCoordinator
      let out := out.andSay fun e => e.livenessNotice target target now
      (out.1.nudgeAntiEntropy, out.2)
    else if m.status = .suspect ∧ m.suspectedHere = false then
      -- Confirmed by our own probe: our window, and our accusation.
      let due := min m.suspectDue (satAdd now window)
      let m := { m.suspectHere now window every with suspectDue := due }
      let e := { e with members := e.members.insert target m }.reindex target
      (e, e.livenessNotice target target now)
    else (e, [])

/-- Draws `k` slots of `eligible` by a partial shuffle, recording only the slots
swapped. -/
def drawSlots (eligible : Nat) :
    Nat → Nat → Spread.SplitMix → Std.TreeMap Nat Nat → List Nat × Spread.SplitMix
  | 0, _, rng, _ => ([], rng)
  | k + 1, i, rng, swapped =>
    let drawn := rng.below (eligible - i)
    let j := i + drawn.1
    let here := swapped.getD i i
    let there := swapped.getD j j
    let rest := drawSlots eligible k (i + 1) drawn.2 (swapped.insert j here)
    (there :: rest.1, rest.2)

/-- The indirect probers for `target`: random members of the ring without it. -/
def drawProbers (ring : List NodeId) (target : NodeId) (indirect : Nat) (rng : Spread.SplitMix) :
    List NodeId × Spread.SplitMix :=
  let skip := ring.findIdx? (· = target)
  let eligible := ring.length - (if skip.isSome then 1 else 0)
  let slot (s : Nat) : Option NodeId := match skip with
    | some pos => if pos ≤ s then ring[s + 1]? else ring[s]?
    | none => ring[s]?
  let drawn := drawSlots eligible (min indirect eligible) 0 rng ∅
  (drawn.1.filterMap slot, drawn.2)

/-- A direct probe missed: enlist indirect probers, or suspect when there are none. -/
def escalateIndirect (target : NodeId) (now : Time) : Outcome :=
  let ringed := e.probeRing
  let drawn := drawProbers ringed.2 target e.config.indirectProbes.val e.rng
  let e := { ringed.1 with rng := drawn.2 }
  if drawn.1.isEmpty then
    { e with pending := none }.suspect target now
  else
    let e := { e with
      pending := some ⟨target, satAdd now (satMul e.config.probeTimeoutMs 2), .indirect⟩ }
    (e, drawn.1.map fun p => e.sendProbe p .pingReq (some target))

/-- Drops the outstanding probe of `target`. -/
def clearPendingIf (target : NodeId) : GroupEngine :=
  if e.pending.any fun p => p.target = target then { e with pending := none } else e

/-- Step 1 of a tick: a probe whose window elapsed. -/
def expireProbe (now : Time) : Outcome :=
  match e.pending with
  | none => (e, [])
  | some p =>
    if now < p.deadline then (e, [])
    else match p.phase with
      | .direct => e.escalateIndirect p.target now
      | .indirect => { e with pending := none }.suspect p.target now

/-- Whether `node` is a suspect this engine times, with a property of its record. -/
def suspectAnd (node : NodeId) (p : Member → Bool) : Bool :=
  decide (node ≠ e.localId) &&
    e.members[node]?.any fun m => decide (m.status = .suspect) && p m

/-- Repeats the accusation of one suspect. -/
def accuse (now : Time) (e : GroupEngine) (node : NodeId) : Outcome :=
  let e := e.modifyMember node fun m =>
    let every := if m.suspectedHere then e.config.probeTimeoutMs else e.config.gossipIntervalMs
    { m with accuseAt := satAdd now every }
  let e := e.reindex node
  (e, e.livenessNotice node node now)

/-- Declares one suspect dead. -/
def bury (now : Time) (e : GroupEngine) (node : NodeId) : GroupEngine :=
  (e.modifyMember node fun m => { m.adoptStatus .dead now with deadSince := now }).stamp node

/-- Step 2 of a tick: accuse the suspects that are due, bury those past their window. -/
def reapSuspects (now : Time) : Outcome :=
  let due := e.dueMembers now
  let dead := due.filter fun node => e.suspectAnd node fun m => decide (m.suspectDue ≤ now)
  let accused := due.filter fun node =>
    e.suspectAnd node fun m => decide (now < m.suspectDue) && decide (m.accuseAt ≤ now)
  let out := Emit.each (accuse now) e accused
  if dead.isEmpty then out
  else
    let out : Outcome := (dead.foldl (bury now) out.1, out.2 ++ [.membershipChanged])
    let out := out.andThen recomputeCoordinator
    let out := out.andSay fun e => dead.flatMap fun node => e.livenessNotice node node now
    (out.1.nudgeAntiEntropy, out.2)

/-- Step 3 of a tick: forget the dead members past the reap window. -/
def reapDead (now : Time) : Outcome :=
  let reapAfter := e.reapAfter
  let stale := (e.dueMembers now).filter fun node =>
    decide (node ≠ e.localId) && e.members[node]?.any fun m =>
      decide (m.status = .dead) && decide (satAdd m.deadSince reapAfter ≤ now)
  if stale.isEmpty then (e, [])
  else (stale.foldl forget e, [.membershipChanged])

/-- Drops one member's due entries. -/
def reapMemberEntries (now : Time) (e : GroupEngine) (node : NodeId) : Outcome :=
  match e.members[node]? with
  | none => (e, [])
  | some m =>
    let taken := m.takeDueEntries now
    let e := { e with members := e.members.insert node taken.1 }
    if taken.2.isEmpty then (e, [])
    else
      (e.reindex node, taken.2.filterMap fun p =>
        if p.2.tombstone then none else some (.nodeStateChanged node p.1))

/-- Step 3b of a tick: drop expired entries and stale entry tombstones. -/
def reapEntries (now : Time) : Outcome :=
  Emit.each (reapMemberEntries now) e (e.dueMembers now)

end GroupEngine

end Groupnet
