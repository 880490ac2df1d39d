import Groupnet.Engine.Digest

/-!
# Merges

Liveness merges by SWIM precedence, entries by per-key last-writer-wins, metadata
by a versioned register.  The two halves of a member section merge independently.
Our own entries come back as echoes: a key not authored this boot is adopted, an
authored one is kept and out-versioned.
-/

namespace Groupnet

namespace GroupEngine

/-! ## Refutation -/

variable (e : GroupEngine)

/-- The incarnation a claim about ourselves makes us jump to.  The increment is the
source's unchecked one, which wraps in a release build. -/
def selfRefuteTarget (status : Status) (incarnation : Nat) : Option Nat :=
  if e.leaving then none
  else
    let falseSuspicion := decide (status ≠ .alive) && decide (e.incarnation ≤ incarnation)
    let peerAhead := decide (e.incarnation < incarnation)
    if falseSuspicion || peerAhead then some (wrapAdd incarnation 1) else none

/-- Jumps to a refuting incarnation, and says whether it did. -/
def applyRefutation (refuteTo : Option Nat) : GroupEngine × Bool :=
  match refuteTo with
  | none => (e, false)
  | some ni =>
    let now := e.nowHint
    let e := { e with incarnation := ni }
    let e := e.modifyMember e.localId fun m => { m with incarnation := ni }.adoptStatus .alive now
    (e.stampSelf, true)

/-- The larger of the refutation targets met so far. -/
def maxTarget (refuteTo : Option Nat) (t : Nat) : Option Nat :=
  some ((refuteTo.map (max · t)).getD t)

/-! ## Liveness -/

/-- How long a suspicion only heard through gossip stands. -/
def heardSuspicionMs : Nat := satAdd e.config.suspectTimeoutMs e.livenessHotMs

/-- Starts the timer a newly adopted status runs on. -/
def armStatus (m : Member) (status : Status) (now : Time) (heard own : Nat) : Member :=
  match status with
  | .suspect => m.hearSuspicion now heard own
  | .dead => { m with deadSince := now }
  | .alive => m

/-- Applies a peer's liveness claim about a remote node, and says whether membership
changed. -/
def mergeRemoteLiveness (node : NodeId) (incarnation : Nat) (status : Status) (now : Time) :
    GroupEngine × Bool :=
  let heard := e.heardSuspicionMs
  let own := e.config.suspectTimeoutMs
  match e.members[node]? with
  | none =>
    let m := armStatus (Member.new incarnation status now) status now heard own
    ({ e with members := e.members.insert node m }.stamp node, true)
  | some cur =>
    if cur.supersededBy incarnation status then
      let m := armStatus ({ cur with incarnation := incarnation }.adoptStatus status now)
        status now heard own
      ({ e with members := e.members.insert node m }.stamp node, true)
    else (e, false)

/-- What a pass over the sections of a frame has accumulated. -/
structure MergeState where
  engine : GroupEngine
  membershipChanged : Bool
  stateChanged : List (NodeId × String)
  refuteTo : Option Nat

def mergeDigestLine (now : Time) (s : MergeState) (d : Wire.NodeDigest) : MergeState :=
  match Status.fromWire d.status with
  | none => s
  | some status =>
    if d.node = s.engine.localId then
      match s.engine.selfRefuteTarget status d.incarnation with
      | some t => { s with refuteTo := maxTarget s.refuteTo t }
      | none => s
    else
      let merged := s.engine.mergeRemoteLiveness d.node d.incarnation status now
      { s with engine := merged.1, membershipChanged := s.membershipChanged || merged.2 }

/-- The end of a merge: refute, then announce what changed. -/
def finishMerge (s : MergeState) : Outcome :=
  let refuted := s.engine.applyRefutation s.refuteTo
  let announced : Outcome :=
    if s.membershipChanged || refuted.2 then
      let out := Emit.andThen (refuted.1, [.membershipChanged]) recomputeCoordinator
      (out.1.nudgeAntiEntropy, out.2)
    else (refuted.1, [])
  announced.andSay fun _ => s.stateChanged.map fun p => .nodeStateChanged p.1 p.2

def mergeDigestLiveness (digest : List Wire.NodeDigest) (now : Time) : Outcome :=
  finishMerge (digest.foldl (mergeDigestLine now) ⟨e, false, [], none⟩)

/-! ## Entries -/

/-- Whether an incoming entry beats the held one: version, then tombstone, then value. -/
def entryWins (held : Option StateEntry) (entry : Wire.EntryDelta) : Bool :=
  match held with
  | none => true
  | some en =>
    decide (en.version < entry.version) ||
      (decide (en.version = entry.version) &&
        ((!en.tombstone && entry.tombstone) ||
          (decide (en.tombstone = entry.tombstone) && decide (en.value < entry.value))))

def adoptEntry (entry : Wire.EntryDelta) (now : Time) : StateEntry :=
  StateEntry.adopted entry.version entry.value entry.ttlMs entry.tombstone now

/-- Adopts every entry of a section for an unknown node. -/
def adoptEntries (m : Member) (reapAfter : Nat) (now : Time) (entries : List Wire.EntryDelta) :
    Member :=
  entries.foldl (fun m entry =>
    (m.observeVersion entry.version).putEntry entry.key (adoptEntry entry now) reapAfter) m

/-- Merges the entries of a section into a known node's record, with the keys adopted. -/
def mergeEntries (reapAfter : Nat) (now : Time) :
    Member → List Wire.EntryDelta → Member × List String
  | m, [] => (m, [])
  | m, entry :: rest =>
    let m := m.observeVersion entry.version
    if entryWins m.entries[entry.key]? entry then
      let merged := mergeEntries reapAfter now
        (m.putEntry entry.key (adoptEntry entry now) reapAfter) rest
      (merged.1, entry.key :: merged.2)
    else mergeEntries reapAfter now m rest

/-- Merges one remote member's section, with whether membership changed and the keys
adopted. -/
def mergePeerDelta (delta : Wire.MemberDelta) (status : Status) (now : Time) :
    GroupEngine × Bool × List String :=
  let reapAfter := e.reapAfter
  let heard := e.heardSuspicionMs
  let own := e.config.suspectTimeoutMs
  match e.members[delta.node]? with
  | none =>
    let m := armStatus (Member.new delta.incarnation status now) status now heard own
    let m := (adoptEntries m reapAfter now delta.entries).observeVersion delta.maxVersion
    ({ e with members := e.members.insert delta.node m }.stamp delta.node, true,
      delta.entries.map Wire.EntryDelta.key)
  | some cur =>
    let statusWins := cur.supersededBy delta.incarnation status
    let m :=
      if statusWins then
        armStatus ({ cur with incarnation := delta.incarnation }.adoptStatus status now)
          status now heard own
      else cur
    let merged := mergeEntries reapAfter now m delta.entries
    let m := merged.1.observeVersion delta.maxVersion
    let e := { e with members := e.members.insert delta.node m }
    let moved := statusWins || !merged.2.isEmpty ||
      decide (cur.maxStateVersion < m.maxStateVersion)
    (if moved then e.stamp delta.node else e, statusWins, merged.2)

def echoDominated (ours : Option StateEntry) (entry : Wire.EntryDelta) : Bool :=
  match ours with
  | none => false
  | some en =>
    decide (entry.version < en.version) ||
      (decide (entry.version = en.version) && decide (entry.value = en.value) &&
        decide (entry.tombstone = en.tombstone))

/-- Merges one echo of our own entry, with the key if it changed. -/
def mergeOwnEcho (entry : Wire.EntryDelta) (now : Time) :
    GroupEngine × List String :=
  match e.members[e.localId]? with
  | none => (e, [])
  | some m =>
    if echoDominated m.entries[entry.key]? entry then (e, [])
    else if e.authored.contains entry.key then
      -- Sole-author rule: keep our value and out-version the echo.
      match m.entries[entry.key]? with
      | none => (e, [])
      | some en =>
        let v := satAdd entry.version 1
        let m := { m with entries := m.entries.insert entry.key { en with version := v } }
        let m := m.entriesChanged.observeVersion v
        ({ e with members := e.members.insert e.localId m }.stampSelf, [entry.key])
    else
      let m := (m.observeVersion entry.version).putEntry entry.key
        (adoptEntry entry now) e.reapAfter
      ({ e with members := e.members.insert e.localId m }.stampSelf, [entry.key])

def mergeOwnEchoes (now : Time) : GroupEngine → List Wire.EntryDelta → GroupEngine × List String
  | e, [] => (e, [])
  | e, entry :: rest =>
    let one := e.mergeOwnEcho entry now
    let more := mergeOwnEchoes now one.1 rest
    (more.1, one.2 ++ more.2)

def mergeMember (now : Time) (s : MergeState) (delta : Wire.MemberDelta) : MergeState :=
  match Status.fromWire delta.status with
  | none => s
  | some status =>
    if delta.node = s.engine.localId then
      let refuteTo := match s.engine.selfRefuteTarget status delta.incarnation with
        | some t => maxTarget s.refuteTo t
        | none => s.refuteTo
      let merged := mergeOwnEchoes now s.engine delta.entries
      { s with
        engine := merged.1
        refuteTo := refuteTo
        stateChanged := s.stateChanged ++ merged.2.map fun k => (s.engine.localId, k) }
    else
      let merged := s.engine.mergePeerDelta delta status now
      { s with
        engine := merged.1
        membershipChanged := s.membershipChanged || merged.2.1
        stateChanged := s.stateChanged ++ merged.2.2.map fun k => (delta.node, k) }

def mergeMembers (deltas : List Wire.MemberDelta) (now : Time) : Outcome :=
  finishMerge (deltas.foldl (mergeMember now) ⟨e, false, [], none⟩)

/-! ## Metadata -/

/-- Merges one metadata register by version and writer. -/
def mergeMeta (d : Wire.MetaDelta) : Outcome :=
  let wins := match e.metadata[d.key]? with
    | some held =>
      decide (held.version < d.version) ||
        (decide (held.version = d.version) && decide (held.writer < d.writer))
    | none => true
  if wins then
    ({ e with metadata := e.metadata.insert d.key ⟨d.value, d.version, d.writer⟩ },
      [.metadataChanged d.key d.value])
  else (e, [])

def mergeMetadata (incoming : List Wire.MetaDelta) : Outcome :=
  Emit.each mergeMeta e incoming

end GroupEngine

end Groupnet
