import Groupnet.Engine.Election

/-!
# The engine's events

Construction, `start`, `onMessage`, `onTick` and `apply`: everything a driver can do
to an engine.  A frame that does not decode, belongs to another group or carries an
unknown status code is dropped.
-/

namespace Groupnet

open Wire (Frame)

/-- A local instruction to the engine. -/
inductive Command where
  | updateMetadata (key value : String)
  /-- Set the reserved blob key. -/
  | setLocalState (state : List UInt8)
  | setLocalEntry (key : String) (value : List UInt8) (ttlMs : Option Nat)
  | deleteLocalEntry (key : String)
  /-- This node leaves the group. -/
  | leave
  /-- Introduce a peer learned out of band. -/
  | addPeer (node : NodeId)
  /-- Replace the dynamic discovery contacts. -/
  | setBootstrapContacts (contacts : List NodeId)
  /-- The driver won an anchor round. -/
  | anchorActivated (epoch : Nat) (leaseUntil : Time)
  /-- The driver read an anchor record it did not win. -/
  | anchorObserved (epoch : Nat) (host : NodeId)
deriving DecidableEq

namespace GroupEngine

/-- The reserved key of the single-blob state. -/
def blobKey : String := "~blob"

/-! ## Construction -/

/-- The engine before its local member is filed. -/
def blank (group : GroupId) (localId : NodeId) (seeds : List NodeId) (config : Config) :
    GroupEngine :=
  let seed := Spread.engineSeed group localId
  { group := group
    localId := localId
    incarnation := 0
    leaving := false
    members := (∅ : Std.TreeMap NodeId Member).insert localId (Member.new 0 .alive 0)
    seeds := (seeds.filter fun p => p ≠ localId).foldl (fun s n => s.insert n) ∅
    bootstrapContacts := ∅
    targets := none
    ring := none
    index := Index.empty
    metadata := ∅
    coordinator := none
    config := config
    nextAntiEntropy := 0
    lastRound := 0
    nextProbe := 0
    probeCursor := Spread.cursor seed
    gossipCursor := Spread.cursor (Placement.mix64 seed)
    rng := ⟨seed⟩
    pending := none
    relaying := ∅
    nowHint := 0
    authored := ∅
    changeClock := 1
    digestPeers := ∅
    election := match config.mode with
      | .hosted hosted => some (Election.new hosted)
      | .eventual => none }

variable (e : GroupEngine)

/-- Files the local member at stamp 1 and names the first coordinator. -/
def filed : GroupEngine :=
  let e := (e.restamp e.localId 1).reindex e.localId
  { e with coordinator := e.computeCoordinator }

/-- Creates an engine, refusing a configuration that fails its check. -/
def new (group : GroupId) (localId : NodeId) (seeds : List NodeId) (config : Config) :
    Except ConfigError GroupEngine :=
  match config.validate with
  | .error err => .error err
  | .ok () => .ok (blank group localId seeds config).filed

/-- Creates a restarting voter's engine, waiting for `restore`. -/
def recovering (group : GroupId) (localId : NodeId) (seeds : List NodeId) (config : Config) :
    Except ConfigError GroupEngine :=
  new group localId seeds config

/-! ## Timers -/

/-- The instant by which the engine next needs a tick. -/
def nextDeadline : Time :=
  let due := min (min e.nextAntiEntropy e.nextProbe) e.slowDeadline
  let due := match e.pending with
    | some p => min due p.deadline
    | none => due
  match e.election.bind Election.deadline with
  | some deadline => min due deadline
  | none => due

def armTimer (e : GroupEngine) : Effect := .armTimer e.nextDeadline

/-- Primes the engine: announces this node and arms the first timers. -/
def start (now : Time) : Outcome :=
  let e := e.observeNow now
  let e := { e with
    nextAntiEntropy := satAdd now e.config.gossipIntervalMs
    nextProbe := satAdd now e.config.probeIntervalMs }
  ((e.electionStart now).disseminateDigest now).andSay fun e => [e.armTimer]

/-! ## Messages -/

def statusesKnown (frame : Frame) : Bool :=
  (frame.digest.map Wire.NodeDigest.status ++ frame.members.map Wire.MemberDelta.status).all
    fun code => (Status.fromWire code).isSome

/-- Relays a proof of life to the origins waiting on `source`. -/
def relayAck (source : NodeId) : Outcome :=
  match e.relaying[source]? with
  | none => (e, [])
  | some origins =>
    let e := { e with relaying := e.relaying.erase source }
    (e, origins.toList.map fun origin => e.sendProbe origin .indirectAck (some source))

def onPingReq (source : NodeId) (target : Option NodeId) : Outcome :=
  match target with
  | none => (e, [])
  | some target =>
    if target = e.localId then (e, [])
    else
      let origins := (e.relaying.getD target ∅).insert source
      let e := { e with relaying := e.relaying.insert target origins }
      (e, [e.sendProbe target .ping none])

def onFrame (source : NodeId) (frame : Frame) (now : Time) : Outcome :=
  match frame.kind with
  | .digest => e.onDigest source frame now
  | .deltaRequest => e.onDeltaRequest source frame now
  | .delta => e.onDelta source frame now
  | .ping => (e, [e.sendProbe source .ack none])
  | .ack => (e.clearPendingIf source).relayAck source
  | .pingReq => e.onPingReq source frame.target
  | .indirectAck =>
    match frame.target with
    | some target => (e.clearPendingIf target, [])
    | none => (e, [])
  | .leadClaim | .leadGrant | .leadState | .leadResign => e.onLead source frame now

/-- Handles an inbound wire frame. -/
def onMessage (source : NodeId) (bytes : List UInt8) (now : Time) : Outcome :=
  let e := e.observeNow now
  match Wire.decode bytes with
  | none => (e, [])
  | some frame =>
    if frame.group ≠ e.group then (e, [])
    else if !statusesKnown frame then (e, [])
    else e.onFrame source frame now

/-! ## Ticks -/

/-- Step 4 of a tick: the next liveness probe when it is due. -/
def probeIfDue (now : Time) : Outcome :=
  if now < e.nextProbe then (e, [])
  else { e with nextProbe := satAdd now e.config.probeIntervalMs }.probe now

/-- Step 5 of a tick: the anti-entropy round when it is due. -/
def roundIfDue (now : Time) : Outcome :=
  if now < e.nextAntiEntropy then (e, [])
  else { e with nextAntiEntropy := satAdd now e.config.gossipIntervalMs }.disseminateDigest now

/-- The gossip steps of a tick, before the round. -/
def tickLiveness (now : Time) : Outcome :=
  (((e.expireProbe now).andThen fun e => e.reapSuspects now).andThen fun e =>
    e.reapDead now).andThen fun e => (e.reapEntries now).andThen fun e => e.probeIfDue now

/-- Advances logical time. -/
def onTick (now : Time) : Outcome :=
  let out := (e.observeNow now).tickLiveness now
  let antiEntropyDue := decide (out.1.nextAntiEntropy ≤ now)
  let out := out.andThen fun e => e.roundIfDue now
  let out := out.andThen fun e => e.electionTick now antiEntropyDue
  out.andSay fun e => [e.armTimer]

/-! ## Commands -/

/-- Stores an entry the local node authored and stamps it. -/
def author (m : Member) (key : String) (entry : StateEntry) : GroupEngine :=
  let m := { m with maxStateVersion := entry.version }.putEntry key entry e.reapAfter
  let e := { e with
    members := e.members.insert e.localId m
    authored := e.authored.insert key }
  e.stampSelf.nudgeAntiEntropyNow

def announceEntry (key : String) : Outcome :=
  Emit.andThen (e, [.nodeStateChanged e.localId key]) eagerPush

/-- Authors one key of our own state. -/
def setLocalEntry (key : String) (value : List UInt8) (ttlMs : Option Nat) :
    Outcome :=
  match e.members[e.localId]? with
  | none => (e, [])
  | some m =>
    let version := satAdd m.maxStateVersion 1
    let entry := StateEntry.adopted version value (ttlMs.getD 0) false e.nowHint
    (e.author m key entry).announceEntry key

/-- Plants a tombstone over one key of our own state. -/
def deleteLocalEntry (key : String) : Outcome :=
  match e.members[e.localId]? with
  | none => (e, [])
  | some m =>
    let version := satAdd m.maxStateVersion 1
    let entry := StateEntry.adopted version [] 0 true e.nowHint
    (e.author m key entry).announceEntry key

/-- Sets a metadata key above the version held.  The increment is the source's
unchecked one. -/
def updateMetadata (key value : String) : Outcome :=
  let version := (e.metadata[key]?.map fun v => wrapAdd v.version 1).getD 1
  let e := { e with metadata := e.metadata.insert key ⟨value, version, e.localId⟩ }
  (e.nudgeAntiEntropyNow, [.metadataChanged key value])

/-- This node leaves: gives up the election, then declares itself dead. -/
def leave : Outcome :=
  let out := e.electionOnLeave
  let e := { out.1 with leaving := true }
  let now := e.nowHint
  let e := e.modifyMember e.localId fun m => { m.adoptStatus .dead now with deadSince := now }
  let out := Emit.andThen (e.stampSelf, out.2 ++ [.membershipChanged]) recomputeCoordinator
  (out.1.nudgeAntiEntropyNow, out.2)

/-- Learns a peer out of band. -/
def addPeer (node : NodeId) : Outcome :=
  if node = e.localId ∨ e.members.contains node then (e, [])
  else
    let e := { e with members := e.members.insert node (Member.new 0 .alive e.nowHint) }
    let out := Emit.andThen (e.stamp node, [.membershipChanged]) recomputeCoordinator
    (out.1.nudgeAntiEntropyNow, out.2)

/-- Replaces the discovery contacts. -/
def setBootstrapContacts (contacts : List NodeId) : GroupEngine :=
  if 4096 < contacts.length then e
  else
    let contacts := (contacts.filter fun n => n ≠ e.localId).foldl (fun s n => s.insert n)
      (∅ : Std.TreeSet NodeId)
    if contacts.toList = e.bootstrapContacts.toList then e
    else
      let removed := e.bootstrapContacts.toList.filter fun n =>
        !contacts.contains n && !e.seeds.contains n && !e.members.contains n
      let added := contacts.toList.filter fun n => !e.bootstrapContacts.contains n
      let peers := removed.foldl (fun ps n => ps.erase n) e.digestPeers
      -- A first contact gets a full digest, and the rolling window keeps its place.
      let peers := added.foldl (fun ps n => match ps[n]? with
        | some peer => ps.insert n { peer with visits := 0, cursor := 0 }
        | none => ps) peers
      { e with
        digestPeers := peers, bootstrapContacts := contacts, targets := none }.nudgeAntiEntropy

def apply : Command → Outcome
  | .updateMetadata key value => e.updateMetadata key value
  | .setLocalState state => e.setLocalEntry blobKey state none
  | .setLocalEntry key value ttlMs => e.setLocalEntry key value ttlMs
  | .deleteLocalEntry key => e.deleteLocalEntry key
  | .leave => e.leave
  | .addPeer node => e.addPeer node
  | .setBootstrapContacts contacts => (e.setBootstrapContacts contacts, [])
  | .anchorActivated epoch leaseUntil => e.onAnchorActivated epoch leaseUntil
  | .anchorObserved epoch host => e.onAnchorObserved epoch host

end GroupEngine

/-! ## Events -/

/-- One call of a driver into an engine. -/
inductive Event where
  | start (now : Time)
  | tick (now : Time)
  | message (source : NodeId) (bytes : List UInt8) (now : Time)
  | command (cmd : Command)
deriving DecidableEq

/-- Makes the call. -/
def GroupEngine.handle (e : GroupEngine) : Event → Outcome
  | .start now => e.start now
  | .tick now => e.onTick now
  | .message source bytes now => e.onMessage source bytes now
  | .command cmd => e.apply cmd

end Groupnet
