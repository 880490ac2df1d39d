import Groupnet.Engine.Index

/-!
# Digests and deltas

What an engine sends in an anti-entropy round.  A digest lists at most a window of
member summaries, each with a content hash of the entries this node still
advertises.  A delta carries the entries above a version, cut at the frame budget
in ascending version order.  Both are read off the state: only the cached hashes
and the cached target list change.
-/

namespace Groupnet

open Wire (Frame)

/-! ## Sorted unions -/

/-- Merges `x` and what `rest` makes of the remaining second list into it. -/
def unionFrom (x : NodeId) (rest : List NodeId → List NodeId) : List NodeId → List NodeId
  | [] => x :: rest []
  | y :: ys =>
    match compare x y with
    | .lt => x :: rest (y :: ys)
    | .gt => y :: unionFrom x rest ys
    | .eq => x :: rest ys

/-- The sorted union of two sorted, duplicate-free lists of ids. -/
def union : List NodeId → List NodeId → List NodeId
  | [], ys => ys
  | x :: xs, ys => unionFrom x (union xs) ys

namespace GroupEngine

/-! ## The content hash -/

variable (e : GroupEngine)

/-- Whether a member is still summarized in digests. -/
def shouldGossip (m : Member) (now : Time) : Bool :=
  decide (m.status ≠ .dead) || decide (now < satAdd m.deadSince e.config.deadTimeoutMs)

/-- Whether an entry is still offered in deltas. -/
def shouldGossipEntry (en : StateEntry) (now : Time) : Bool :=
  if en.tombstone then decide (now < satAdd en.tombstoneSince e.config.deadTimeoutMs)
  else !en.expired now

/-- One step of an FNV-1a fold. -/
def hashBytes (h : Nat) (bytes : List UInt8) : Nat :=
  bytes.foldl (fun h b => Placement.fnvByte h b.toNat) h

def advertisedUntil (en : StateEntry) : Time :=
  if en.tombstone then satAdd en.tombstoneSince e.config.deadTimeoutMs else en.expiresAt

/-- The hash of a member's advertised entries, with the instant it stops holding. -/
def computeContentHash (m : Member) (now : Time) : Nat × Time :=
  m.entries.toList.foldl (fun acc p =>
    if e.shouldGossipEntry p.2 now then
      let h := hashBytes acc.1 (Placement.bytes p.1)
      let h := hashBytes h (Codec.putU64 p.2.version)
      let h := hashBytes h (Wire.putBool p.2.tombstone)
      (hashBytes h p.2.value, min acc.2 (e.advertisedUntil p.2))
    else acc) (0, Time.max)

/-- The content hash, from the cache while it is valid. -/
def contentHash (m : Member) (now : Time) : Nat :=
  match m.hashCache with
  | some (hash, until_) => if now < until_ then hash else (e.computeContentHash m now).1
  | none => (e.computeContentHash m now).1

/-- Refreshes `node`'s cached content hash if it is missing or past its validity. -/
def refreshContentHash (node : NodeId) (now : Time) : GroupEngine :=
  match e.members[node]? with
  | none => e
  | some m =>
    if m.hashCache.any fun c => now < c.2 then e
    else
      let fresh := e.computeContentHash m now
      e.modifyMember node fun m => { m with hashCache := some fresh }

def summary (node : NodeId) (m : Member) (now : Time) : Wire.NodeDigest where
  node := node
  incarnation := m.incarnation
  status := m.status.toWire
  maxVersion := m.maxStateVersion
  contentHash := e.contentHash m now

/-- A one-line digest telling `dest` how this node holds `about`. -/
def livenessNotice (dest about : NodeId) (now : Time) : List Effect :=
  match e.members[about]? with
  | none => []
  | some m =>
    [.send dest { Frame.bare .digest e.group none with digest := [e.summary about m now] }]

/-! ## Which members a digest lists -/

/-- How long a liveness change leads every full digest. -/
def livenessHotMs : Nat :=
  -- The bit width of the member count, plus one.
  let rounds := (if e.members.size = 0 then 0 else Nat.log2 e.members.size + 1) + 1
  satMul e.config.gossipIntervalMs rounds

def changedAfter (cursor : Nat) : List (NodeId × Member) :=
  (e.index.changed.toList.filter fun p => cursor < p.1).reverse.filterMap fun p =>
    e.members[p.2]?.map fun m => (p.2, m)

/-- Whether `m`'s liveness changed within the hot span. -/
def hot (now : Time) (m : Member) : Bool :=
  decide (now - m.livenessSince < e.livenessHotMs)

def leadNews (e : GroupEngine) (now : Time) (cursor cap : Nat) :
    List NodeId → List NodeId → List NodeId
  | listed, [] => listed
  | listed, node :: rest =>
    match e.members[node]? with
    | none => e.leadNews now cursor cap listed rest
    | some m =>
      -- News only gets older from here.
      if cap ≤ listed.length || !e.hot now m then listed
      else if node ≠ e.localId && (decide (cursor < m.changedAt) && e.shouldGossip m now) then
        e.leadNews now cursor cap (listed ++ [node]) rest
      else e.leadNews now cursor cap listed rest

def leadChanged (e : GroupEngine) (now : Time) (cap : Nat) :
    List NodeId → List (NodeId × Member) → List NodeId
  | listed, [] => listed
  | listed, (node, m) :: rest =>
    if cap ≤ listed.length then listed
    else if node ≠ e.localId && (!e.hot now m && e.shouldGossip m now) then
      e.leadChanged now cap (listed ++ [node]) rest
    else e.leadChanged now cap listed rest

def digestLead (now : Time) (cursor cap : Nat) : List NodeId :=
  if cap = 0 then []
  else
    let own := match e.members[e.localId]? with
      | some m => if decide (cursor < m.changedAt) && e.shouldGossip m now then [e.localId] else []
      | none => []
    let news := e.index.news.toList.reverse.map fun p => (ofLex (ofLex p).2).2
    e.leadChanged now cap (e.leadNews now cursor cap own news) (e.changedAfter cursor)

/-- The members still summarized, in id order. -/
def gossipable (now : Time) : List NodeId :=
  (e.members.toList.filter fun p => e.shouldGossip p.2 now).map Prod.fst

/-- The rolling walk: once round the gossipable members, from where the last full
digest to the peer stopped. -/
def digestWalk (dest : NodeId) (now : Time) (resume : Option NodeId) :
    List NodeId :=
  let nodes := e.gossipable now
  match resume with
  | some after => nodes.filter (after < ·) ++ nodes.filter (· ≤ after)
  | none =>
    if nodes.length = 0 then []
    else
      let start := Spread.index (Spread.pairHash e.localId dest) nodes.length
      nodes.drop start ++ nodes.take start

/-- Fills `listed` up to `window` from the walk, skipping the leading members, and
says where the walk stopped. -/
def fillWindow (leading : List NodeId) (window : Nat) :
    List NodeId → Option NodeId → List NodeId → List NodeId × Option NodeId
  | listed, resume, [] => (listed, resume)
  | listed, resume, node :: walk =>
    if window ≤ listed.length then (listed, resume)
    else if node ∈ leading then fillWindow leading window listed (some node) walk
    else fillWindow leading window (listed ++ [node]) (some node) walk

/-- Chooses the members the next digest to `dest` lists, whether it is full, and the
peer's updated bookkeeping. -/
def digestFor (dest : NodeId) (now : Time) : List NodeId × Bool × PeerDigest :=
  let window := e.config.digestWindow.val
  let prev := e.digestPeers[dest]?
  let visits := (prev.map PeerDigest.visits).getD 0
  let cursor := (prev.map PeerDigest.cursor).getD 0
  let peer : PeerDigest := ⟨visits + 1, e.changeClock, prev.bind PeerDigest.resume⟩
  let delta := ((e.changedAfter cursor).filter fun p => e.shouldGossip p.2 now).take (window + 1)
  if visits % e.config.fullDigestEvery.val ≠ 0 && decide (delta.length ≤ window) then
    ((delta.map Prod.fst).insertionSort (· ≤ ·), false, peer)
  else
    let lead := e.digestLead now cursor (window / 2)
    let filled := fillWindow lead window lead peer.resume (e.digestWalk dest now peer.resume)
    (filled.1, true, { peer with resume := filled.2 })

/-! ## Frames -/

/-- Takes summaries into one frame up to the budget, at least one. -/
def fillSlice (budget : Nat) :
    Nat → List Wire.NodeDigest → List Wire.NodeDigest → List Wire.NodeDigest × List Wire.NodeDigest
  | _, slice, [] => (slice, [])
  | size, slice, d :: rest =>
    if budget < size + Wire.digestLen d && !slice.isEmpty then (slice, d :: rest)
    else fillSlice budget (size + Wire.digestLen d) (slice ++ [d]) rest

/-- Chunks summaries into frames.  The metadata rides the first.  Every round takes
at least one summary, so `fuel` of one above their number is enough. -/
def digestChunks (group : GroupId) (budget : Nat) :
    Nat → List Wire.MetaDelta → List Wire.NodeDigest → List Frame
  | 0, _, _ => []
  | fuel + 1, metadata, rest =>
    let base := 1 + 1 + (4 + group.str.utf8ByteSize) + 1 + 4
    let size := base + (4 + Wire.metadataLen metadata)
    let filled := fillSlice budget size [] rest
    if filled.1.isEmpty && metadata.isEmpty then []
    else
      let frame := { Frame.bare .digest group none with
        digest := filled.1, metadata := metadata }
      if filled.2.isEmpty then [frame]
      else frame :: digestChunks group budget fuel [] filled.2

def buildDigestChunks (summaries : List Wire.NodeDigest) : List Frame :=
  let metadata := e.metadata.toList.map fun p =>
    (⟨p.1, p.2.version, p.2.writer, p.2.value⟩ : Wire.MetaDelta)
  digestChunks e.group e.config.maxDeltaFrameBytes.val (summaries.length + 1) metadata summaries

def keepWants (budget : Nat) : Nat → List Wire.NodeWant → List Wire.NodeWant → List Wire.NodeWant
  | _, kept, [] => kept
  | size, kept, w :: rest =>
    if budget < size + Wire.wantLen w && !kept.isEmpty then kept
    else keepWants budget (size + Wire.wantLen w) (kept ++ [w]) rest

def sendDeltaRequest (dest : NodeId) (wants : List Wire.NodeWant) : Effect :=
  let base := 1 + 1 + (4 + e.group.str.utf8ByteSize) + 1 + 4
  .send dest { Frame.bare .deltaRequest e.group none with
    wants := keepWants e.config.maxDeltaFrameBytes.val base [] wants }

/-- What fits of one member's qualifying entries. -/
structure Packed where
  entries : List Wire.EntryDelta
  /-- The section's encoded size so far. -/
  size : Nat
  /-- The last version included. -/
  top : Nat
  truncated : Bool

/-- Packs entries in order up to the budget.  The very first entry of a frame is never
starved. -/
def packEntries (budget size : Nat) (firstMember : Bool) : Packed → List Wire.EntryDelta → Packed
  | p, [] => p
  | p, ed :: rest =>
    if budget < size + p.size + Wire.entryLen ed && !(firstMember && p.entries.isEmpty) then
      { p with truncated := true }
    else packEntries budget size firstMember
      { p with
        entries := p.entries ++ [ed], size := p.size + Wire.entryLen ed, top := ed.version } rest

def entryDelta (key : String) (en : StateEntry) : Wire.EntryDelta :=
  ⟨key, en.version, en.ttlMs, en.tombstone, en.value⟩

/-- The entries of `m` above `since` that are still offered, in version order. -/
def qualifying (m : Member) (since : Nat) (now : Time) : List Wire.EntryDelta :=
  ((m.entries.toList.filter fun p =>
      decide (since < p.2.version) && e.shouldGossipEntry p.2 now).map
    fun p => entryDelta p.1 p.2).insertionSort (fun a b => a.version ≤ b.version)

/-- Packs one section per want until the frame is full. -/
def packWants (e : GroupEngine) (now : Time) (budget : Nat) :
    Nat → List Wire.MemberDelta → List (NodeId × Nat) → List Wire.MemberDelta
  | _, members, [] => members
  | size, members, (node, since) :: rest =>
    match e.members[node]? with
    | none => e.packWants now budget size members rest
    | some m =>
      let header := Wire.memberHeaderLen node
      if budget < size + header && !members.isEmpty then members
      else
        let p := packEntries budget size members.isEmpty ⟨[], header, since, false⟩
          (e.qualifying m since now)
        -- A complete section lets the recipient jump to the true high-water mark.
        let maxVersion := if p.truncated then p.top else max m.maxStateVersion p.top
        let md : Wire.MemberDelta :=
          ⟨node, m.incarnation, m.status.toWire, maxVersion, p.entries⟩
        let keep := !p.entries.isEmpty || decide (since < maxVersion)
        let size := if keep then size + p.size else size
        let members := if keep then members ++ [md] else members
        if p.truncated then members else e.packWants now budget size members rest

def buildDeltaFrame (wants : List (NodeId × Nat)) (now : Time) : Option Frame :=
  let members := e.packWants now e.config.maxDeltaFrameBytes.val
    (Wire.deltaFrameOverhead e.group) [] wants
  if members.isEmpty then none
  else some { Frame.bare .delta e.group none with members := members }

/-! ## Targets -/

/-- Every peer a round may target, in id order. -/
def disseminationTargets : List NodeId :=
  union (union e.probeCandidates e.seeds.toList) e.bootstrapContacts.toList

/-- Up to `k` distinct targets from position `cursor` on, wrapping. -/
def rotatedTargets (cursor k : Nat) : GroupEngine × List NodeId :=
  let targets := e.targets.getD e.disseminationTargets
  let n := targets.length
  ({ e with targets := some targets },
    if n = 0 then []
    else (List.range (min k n)).filterMap fun i => targets[(cursor % n + i) % n]?)

/-- Picks the next fanout of peers and moves the cursor past them. -/
def selectFanoutTargets : GroupEngine × List NodeId :=
  let out := e.rotatedTargets e.gossipCursor e.config.gossipFanout.val
  ({ out.1 with gossipCursor := wrapAdd e.gossipCursor out.2.length }, out.2)

/-! ## The round's timer -/

/-- Brings the next round forward for something this node learned. -/
def nudgeAntiEntropy : GroupEngine :=
  let earliest := satAdd e.lastRound (e.config.gossipIntervalMs / 2)
  { e with nextAntiEntropy := min e.nextAntiEntropy (max e.nowHint earliest) }

/-- Brings the next round forward to now for something the application did. -/
def nudgeAntiEntropyNow : GroupEngine :=
  { e with nextAntiEntropy := min e.nextAntiEntropy e.nowHint }

end GroupEngine

end Groupnet
