import Groupnet.Id
import Groupnet.Lib.Codec

/-!
# The gossip wire protocol

Every message is a `Frame`: a `Kind` and the fields of that kind.  `encode` and
`decode` are the codec, a version byte, the kind, the group id, an optional target
and a body per kind.  The version byte guards against other builds.

`Frame.WellFormed` says that only the fields of the kind are populated and that
every number and length fits its encoding.  `decode_encode` is the round trip of
such frames.  The size functions at the end are the engine's accounting of a frame
against its budget.
-/

namespace Groupnet.Wire

open Codec

/-! ## Frames -/

/-- What a frame is for. -/
inductive Kind where
  | digest
  | deltaRequest
  | delta
  | ping
  | ack
  | pingReq
  | indirectAck
  | leadClaim
  | leadGrant
  | leadState
  | leadResign
deriving DecidableEq

/-- The body of an election frame. -/
inductive LeadBody where
  /-- A candidate bids for the host role. -/
  | claim (epoch : Nat) (claimant : NodeId)
  | grant (epoch : Nat) (claimant granter : NodeId)
  /-- The sender's belief, for repair. -/
  | state (epoch : Nat) (host : Option NodeId)
  /-- A leaving host or claimant gives up `epoch`. -/
  | resign (epoch : Nat) (host : NodeId)
deriving DecidableEq

def LeadBody.epoch : LeadBody → Nat
  | .claim epoch _ => epoch
  | .grant epoch _ _ => epoch
  | .state epoch _ => epoch
  | .resign epoch _ => epoch

/-- One key of a member's state, as the sender holds it. -/
structure EntryDelta where
  key : String
  version : Nat
  ttlMs : Nat
  tombstone : Bool
  value : List UInt8
deriving DecidableEq

/-- One member's liveness, high-water mark and entries, as the sender holds them. -/
structure MemberDelta where
  node : NodeId
  incarnation : Nat
  status : UInt8
  maxVersion : Nat
  entries : List EntryDelta
deriving DecidableEq

/-- A compact summary of one member. -/
structure NodeDigest where
  node : NodeId
  incarnation : Nat
  status : UInt8
  maxVersion : Nat
  contentHash : Nat
deriving DecidableEq

/-- A request for a node's entries above `haveVersion`. -/
structure NodeWant where
  node : NodeId
  haveVersion : Nat
deriving DecidableEq

structure MetaDelta where
  key : String
  version : Nat
  writer : NodeId
  value : String
deriving DecidableEq

/-- A protocol frame.  Only the fields its kind uses are encoded. -/
structure Frame where
  kind : Kind
  group : GroupId
  target : Option NodeId
  digest : List NodeDigest
  wants : List NodeWant
  members : List MemberDelta
  metadata : List MetaDelta
  lead : Option LeadBody
deriving DecidableEq

/-- A frame with no body yet. -/
def Frame.bare (kind : Kind) (group : GroupId) (target : Option NodeId) : Frame :=
  ⟨kind, group, target, [], [], [], [], none⟩

/-! ## The codec -/

def frameVersion : UInt8 := 1

def kindToU8 : Kind → UInt8
  | .digest => 1
  | .ping => 2
  | .ack => 3
  | .pingReq => 4
  | .indirectAck => 5
  | .deltaRequest => 6
  | .delta => 7
  | .leadClaim => 8
  | .leadGrant => 9
  | .leadState => 10
  | .leadResign => 11

def kindFromU8 (b : UInt8) : Option Kind :=
  if b = 1 then some .digest
  else if b = 2 then some .ping
  else if b = 3 then some .ack
  else if b = 4 then some .pingReq
  else if b = 5 then some .indirectAck
  else if b = 6 then some .deltaRequest
  else if b = 7 then some .delta
  else if b = 8 then some .leadClaim
  else if b = 9 then some .leadGrant
  else if b = 10 then some .leadState
  else if b = 11 then some .leadResign
  else none

def leadKind : LeadBody → Kind
  | .claim .. => .leadClaim
  | .grant .. => .leadGrant
  | .state .. => .leadState
  | .resign .. => .leadResign

/-- An optional id behind a presence byte. -/
def putOptId : Option NodeId → List UInt8
  | some n => 1 :: putStr n.str
  | none => [0]

def putLead : LeadBody → List UInt8
  | .claim epoch claimant => putU64 epoch ++ putStr claimant.str
  | .grant epoch claimant granter =>
    putU64 epoch ++ (putStr claimant.str ++ putStr granter.str)
  | .state epoch host => putU64 epoch ++ putOptId host
  | .resign epoch host => putU64 epoch ++ putStr host.str

def putDigest (d : NodeDigest) : List UInt8 :=
  putStr d.node.str ++ (putU64 d.incarnation ++ ([d.status] ++
    (putU64 d.maxVersion ++ putU64 d.contentHash)))

def putWant (w : NodeWant) : List UInt8 := putStr w.node.str ++ putU64 w.haveVersion

def putMeta (d : MetaDelta) : List UInt8 :=
  putStr d.key ++ (putU64 d.version ++ (putStr d.writer.str ++ putStr d.value))

def putBool (b : Bool) : List UInt8 := [if b then 1 else 0]

def putEntry (e : EntryDelta) : List UInt8 :=
  putStr e.key ++ (putU64 e.version ++ (putU64 e.ttlMs ++ (putBool e.tombstone ++
    putBytes e.value)))

def putMember (m : MemberDelta) : List UInt8 :=
  putStr m.node.str ++ (putU64 m.incarnation ++ ([m.status] ++
    (putU64 m.maxVersion ++ putList putEntry m.entries)))

/-- The part of a frame that depends on its kind. -/
def putBody (f : Frame) : List UInt8 :=
  match f.kind with
  | .digest => putList putDigest f.digest ++ putList putMeta f.metadata
  | .deltaRequest => putList putWant f.wants
  | .delta => putList putMember f.members
  -- A bodiless election frame fails to decode at the receiver.
  | .leadClaim | .leadGrant | .leadState | .leadResign => (f.lead.map putLead).getD []
  | .ping | .ack | .pingReq | .indirectAck => []

def encode (f : Frame) : List UInt8 :=
  [frameVersion] ++ ([kindToU8 f.kind] ++ (putStr f.group.str ++ (putOptId f.target ++ putBody f)))

def getNodeId : Get NodeId := do
  let s ← getStr
  (NodeId.ofString? s : Option NodeId)

def getGroupId : Get GroupId := do
  let s ← getStr
  (GroupId.ofString? s : Option GroupId)

def getOptId : Get (Option NodeId) := do
  let b ← takeU8
  if b = 0 then pure none
  else if b = 1 then do
    let n ← getNodeId
    pure (some n)
  else failure

def getBool : Get Bool := do
  let b ← takeU8
  if b = 0 then pure false else if b = 1 then pure true else failure

/-- Reads the election body an election kind promises. -/
def getLead (kind : Kind) : Get LeadBody := do
  let epoch ← getU64
  match kind with
  | .leadClaim => do
    let claimant ← getNodeId
    pure (.claim epoch claimant)
  | .leadGrant => do
    let claimant ← getNodeId
    let granter ← getNodeId
    pure (.grant epoch claimant granter)
  | .leadState => do
    let host ← getOptId
    pure (.state epoch host)
  | .leadResign => do
    let host ← getNodeId
    pure (.resign epoch host)
  | _ => failure

def getDigest : Get NodeDigest := do
  let node ← getNodeId
  let incarnation ← getU64
  let status ← takeU8
  let maxVersion ← getU64
  let contentHash ← getU64
  pure ⟨node, incarnation, status, maxVersion, contentHash⟩

def getWant : Get NodeWant := do
  let node ← getNodeId
  let haveVersion ← getU64
  pure ⟨node, haveVersion⟩

def getMeta : Get MetaDelta := do
  let key ← getStr
  let version ← getU64
  let writer ← getNodeId
  let value ← getStr
  pure ⟨key, version, writer, value⟩

def getEntry : Get EntryDelta := do
  let key ← getStr
  let version ← getU64
  let ttlMs ← getU64
  let tombstone ← getBool
  let value ← getBytes
  pure ⟨key, version, ttlMs, tombstone, value⟩

def getMember : Get MemberDelta := do
  let node ← getNodeId
  let incarnation ← getU64
  let status ← takeU8
  let maxVersion ← getU64
  let entries ← getList getEntry
  pure ⟨node, incarnation, status, maxVersion, entries⟩

/-- Fills in the part of a frame that depends on its kind. -/
def getBody (f : Frame) : Get Frame :=
  match f.kind with
  | .digest => do
    let digest ← getList getDigest
    let metadata ← getList getMeta
    pure { f with digest := digest, metadata := metadata }
  | .deltaRequest => do
    let wants ← getList getWant
    pure { f with wants := wants }
  | .delta => do
    let members ← getList getMember
    pure { f with members := members }
  | .leadClaim | .leadGrant | .leadState | .leadResign => do
    let lead ← getLead f.kind
    pure { f with lead := some lead }
  | .ping | .ack | .pingReq | .indirectAck => pure f

def getVersion : Get Unit := do
  let v ← takeU8
  if v = frameVersion then pure () else failure

def getKind : Get Kind := do
  let b ← takeU8
  (kindFromU8 b : Option Kind)

def getFrame : Get Frame := do
  getVersion
  let kind ← getKind
  let group ← getGroupId
  let target ← getOptId
  getBody (Frame.bare kind group target)

def decode (bytes : List UInt8) : Option Frame := (getFrame bytes).map Prod.fst

def peekGroup (bytes : List UInt8) : Option GroupId :=
  (StateT.run (do getVersion; let _ ← takeU8; getGroupId) bytes).map Prod.fst

/-! ## Encoded sizes -/

def strLen (s : String) : Nat := 4 + s.utf8ByteSize

def digestLen (d : NodeDigest) : Nat := strLen d.node.str + 8 + 1 + 8 + 8

def wantLen (w : NodeWant) : Nat := strLen w.node.str + 8

def metaLen (d : MetaDelta) : Nat :=
  strLen d.key + 8 + strLen d.writer.str + 4 + d.value.utf8ByteSize

def metadataLen (ds : List MetaDelta) : Nat := ds.foldl (fun n d => n + metaLen d) 0

def entryLen (e : EntryDelta) : Nat := strLen e.key + 8 + 8 + 1 + 4 + e.value.length

def memberHeaderLen (node : NodeId) : Nat := strLen node.str + 8 + 1 + 8 + 4

def deltaFrameOverhead (group : GroupId) : Nat := 1 + 1 + strLen group.str + 1 + 4

/-! ## Well-formed frames -/

/-- The numbers of a summary fit their encoding. -/
structure NodeDigest.Fits (d : NodeDigest) : Prop where
  incarnation : d.incarnation ≤ u64Max
  maxVersion : d.maxVersion ≤ u64Max
  contentHash : d.contentHash ≤ u64Max

/-- The numbers and lengths of a register fit their encoding. -/
structure MetaDelta.Fits (d : MetaDelta) : Prop where
  key : d.key.utf8ByteSize < 4294967296
  version : d.version ≤ u64Max
  value : d.value.utf8ByteSize < 4294967296

/-- The numbers and lengths of an entry fit their encoding. -/
structure EntryDelta.Fits (e : EntryDelta) : Prop where
  key : e.key.utf8ByteSize < 4294967296
  version : e.version ≤ u64Max
  ttlMs : e.ttlMs ≤ u64Max
  value : e.value.length < 4294967296

/-- The numbers and lengths of a member section fit their encoding. -/
structure MemberDelta.Fits (m : MemberDelta) : Prop where
  incarnation : m.incarnation ≤ u64Max
  maxVersion : m.maxVersion ≤ u64Max
  count : m.entries.length < 4294967296
  entries : ∀ e ∈ m.entries, e.Fits

/-- Only the fields of the kind are populated, and they fit their encoding. -/
def Frame.WellFormed (f : Frame) : Prop :=
  match f.kind with
  | .digest =>
    f = { Frame.bare .digest f.group f.target with digest := f.digest, metadata := f.metadata } ∧
    f.digest.length < 4294967296 ∧ (∀ d ∈ f.digest, d.Fits) ∧
    f.metadata.length < 4294967296 ∧ (∀ d ∈ f.metadata, d.Fits)
  | .deltaRequest =>
    f = { Frame.bare .deltaRequest f.group f.target with wants := f.wants } ∧
    f.wants.length < 4294967296 ∧ ∀ w ∈ f.wants, w.haveVersion ≤ u64Max
  | .delta =>
    f = { Frame.bare .delta f.group f.target with members := f.members } ∧
    f.members.length < 4294967296 ∧ ∀ m ∈ f.members, m.Fits
  | .leadClaim | .leadGrant | .leadState | .leadResign =>
    ∃ body, f = { Frame.bare (leadKind body) f.group f.target with lead := some body } ∧
      body.epoch ≤ u64Max
  | .ping | .ack | .pingReq | .indirectAck => f = Frame.bare f.kind f.group f.target

/-! ## The round trip -/

theorem reads_u64 {n : Nat} (h : n ≤ u64Max) : Reads getU64 (putU64 n) n :=
  reads_getU64 (Nat.lt_succ_of_le h)

theorem reads_getNodeId (n : NodeId) : Reads getNodeId (putStr n.str) n :=
  Reads.lift (reads_getStr n.short) (NodeId.ofString?_str n)

theorem reads_getGroupId (g : GroupId) : Reads getGroupId (putStr g.str) g :=
  Reads.lift (reads_getStr g.short) (GroupId.ofString?_str g)

theorem reads_getOptId (n : Option NodeId) : Reads getOptId (putOptId n) n := by
  cases n with
  | none => exact Reads.bind (reads_takeU8 0) (Reads.pure none)
  | some n => exact Reads.bind (reads_takeU8 1) (Reads.map (reads_getNodeId n))

theorem reads_getBool (b : Bool) : Reads getBool (putBool b) b := by
  cases b with
  | false => exact Reads.bind (reads_takeU8 0) (Reads.pure false)
  | true => exact Reads.bind (reads_takeU8 1) (Reads.pure true)

theorem reads_getLead {body : LeadBody} (h : body.epoch ≤ u64Max) :
    Reads (getLead (leadKind body)) (putLead body) body := by
  cases body with
  | claim epoch claimant =>
    exact Reads.bind (reads_u64 h) (Reads.map (reads_getNodeId claimant))
  | grant epoch claimant granter =>
    exact Reads.bind (reads_u64 h)
      (Reads.bind (reads_getNodeId claimant) (Reads.map (reads_getNodeId granter)))
  | state epoch host => exact Reads.bind (reads_u64 h) (Reads.map (reads_getOptId host))
  | resign epoch host => exact Reads.bind (reads_u64 h) (Reads.map (reads_getNodeId host))

theorem reads_getDigest {d : NodeDigest} (h : d.Fits) : Reads getDigest (putDigest d) d :=
  Reads.bind (reads_getNodeId d.node) <|
    Reads.bind (reads_u64 h.incarnation) <|
      Reads.bind (reads_takeU8 d.status) <|
        Reads.bind (reads_u64 h.maxVersion) <| Reads.map (reads_u64 h.contentHash)

theorem reads_getWant {w : NodeWant} (h : w.haveVersion ≤ u64Max) :
    Reads getWant (putWant w) w :=
  Reads.bind (reads_getNodeId w.node) <| Reads.map (reads_u64 h)

theorem reads_getMeta {d : MetaDelta} (h : d.Fits) : Reads getMeta (putMeta d) d :=
  Reads.bind (reads_getStr h.key) <|
    Reads.bind (reads_u64 h.version) <|
      Reads.bind (reads_getNodeId d.writer) <| Reads.map (reads_getStr h.value)

theorem reads_getEntry {e : EntryDelta} (h : e.Fits) : Reads getEntry (putEntry e) e :=
  Reads.bind (reads_getStr h.key) <|
    Reads.bind (reads_u64 h.version) <|
      Reads.bind (reads_u64 h.ttlMs) <|
        Reads.bind (reads_getBool e.tombstone) <| Reads.map (reads_getBytes h.value)

theorem reads_getMember {m : MemberDelta} (h : m.Fits) : Reads getMember (putMember m) m :=
  Reads.bind (reads_getNodeId m.node) <|
    Reads.bind (reads_u64 h.incarnation) <|
      Reads.bind (reads_takeU8 m.status) <|
        Reads.bind (reads_u64 h.maxVersion) <|
          Reads.map (reads_getList h.count fun e he => reads_getEntry (h.entries e he))

/-- The body of a well-formed frame is read back into its bare frame. -/
theorem reads_getBody {f : Frame} (h : f.WellFormed) :
    Reads (getBody (Frame.bare f.kind f.group f.target)) (putBody f) f := by
  obtain ⟨kind, group, target, digest, wants, members, metadata, lead⟩ := f
  cases kind with
  | digest =>
    obtain ⟨heq, hlen, hd, hmlen, hm⟩ := h
    rw [heq]
    exact Reads.bind (reads_getList hlen fun d hmem => reads_getDigest (hd d hmem))
      (Reads.map (reads_getList hmlen fun d hmem => reads_getMeta (hm d hmem)))
  | deltaRequest =>
    obtain ⟨heq, hlen, hw⟩ := h
    rw [heq]
    exact Reads.map (reads_getList hlen fun w hmem => reads_getWant (hw w hmem))
  | delta =>
    obtain ⟨heq, hlen, hm⟩ := h
    rw [heq]
    exact Reads.map (reads_getList hlen fun m hmem => reads_getMember (hm m hmem))
  | leadClaim | leadGrant | leadState | leadResign =>
    obtain ⟨body, heq, hepoch⟩ := h
    have hkind := congrArg Frame.kind heq
    cases body <;> cases hkind
    rw [heq]
    exact Reads.map (reads_getLead hepoch)
  | ping | ack | pingReq | indirectAck =>
    rw [show _ = Frame.bare _ group target from h]
    exact Reads.pure _

theorem reads_getFrame {f : Frame} (h : f.WellFormed) : Reads getFrame (encode f) f := by
  have hkind : kindFromU8 (kindToU8 f.kind) = some f.kind := by cases f.kind <;> rfl
  refine Reads.bind (f := fun _ => _) (x := ()) ?_ ?_
  · exact Reads.bind (reads_takeU8 frameVersion) (Reads.pure ())
  refine Reads.bind (Reads.lift (reads_takeU8 _) hkind) ?_
  exact Reads.bind (reads_getGroupId f.group)
    (Reads.bind (reads_getOptId f.target) (reads_getBody h))

theorem decode_encode {f : Frame} (h : f.WellFormed) : decode (encode f) = some f := by
  unfold decode
  rw [(reads_getFrame h).run_eq]
  rfl

end Groupnet.Wire
