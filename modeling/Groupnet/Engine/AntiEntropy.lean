import Groupnet.Engine.Merge

/-!
# Anti-entropy rounds and replies

A round sends a digest to a rotating fanout of peers.  A digest that arrives is
merged, then answered with a request for what we are behind on and a delta of what
we are ahead on.  Equal high-water marks with different content hashes fall back to
a full exchange both ways.  A local write is pushed at once when the configuration
says so.
-/

namespace Groupnet

open Wire (Frame)

namespace GroupEngine

/-- Pushes the just-authored entry to the current fanout targets. -/
def eagerPush (e : GroupEngine) : Outcome :=
  if !e.config.eagerPush then (e, [])
  else
    let since := (e.members[e.localId]?.map fun m => m.maxStateVersion - 1).getD 0
    match e.buildDeltaFrame [(e.localId, since)] e.nowHint with
    | none => (e, [])
    | some delta =>
      let picked := e.selectFanoutTargets
      (picked.1, picked.2.map fun dest => .send dest delta)

/-- Builds and sends one peer's digest. -/
def digestTo (now : Time) (e : GroupEngine) (dest : NodeId) : Outcome :=
  let chosen := e.digestFor dest now
  let e := { e with digestPeers := e.digestPeers.insert dest chosen.2.2 }
  let e := chosen.1.foldl (fun e node => e.refreshContentHash node now) e
  let summaries := chosen.1.filterMap fun node =>
    e.members[node]?.map fun m => e.summary node m now
  (e, (e.buildDigestChunks summaries).map fun frame => .send dest frame)

variable (e : GroupEngine)

/-- Runs one anti-entropy round. -/
def disseminateDigest (now : Time) : Outcome :=
  let picked := { e with lastRound := now }.selectFanoutTargets
  Emit.each (digestTo now) picked.1 picked.2

/-- What one digest line makes us ask for and offer. -/
def reconcileLine (now : Time) (d : Wire.NodeDigest) :
    List Wire.NodeWant × List (NodeId × Nat) :=
  let (oursMax, oursHash) := match e.members[d.node]? with
    | some m => (m.maxStateVersion, e.contentHash m now)
    | none => (0, 0)
  if oursMax < d.maxVersion then ([⟨d.node, oursMax⟩], [])
  else if d.maxVersion < oursMax then ([], [(d.node, d.maxVersion)])
  else if d.contentHash ≠ oursHash then ([⟨d.node, 0⟩], [(d.node, 0)])
  else ([], [])

/-- Requests what a digest shows we are behind on and offers what we are ahead on. -/
def reconcile (source : NodeId) (digest : List Wire.NodeDigest) (now : Time) :
    List Effect :=
  let lines := digest.map (e.reconcileLine now)
  let wants := lines.flatMap Prod.fst
  let offers := lines.flatMap Prod.snd
  (if wants.isEmpty then [] else [e.sendDeltaRequest source wants]) ++
    (match e.buildDeltaFrame offers now with
      | some delta => [.send source delta]
      | none => [])

/-- Whether a digest names us anything but alive. -/
def doubtedBy (digest : List Wire.NodeDigest) : Bool :=
  digest.any fun d => decide (d.node = e.localId) &&
    decide (Status.fromWire d.status ≠ some .alive)

/-- Merges a peer's digest and answers it. -/
def onDigest (source : NodeId) (frame : Frame) (now : Time) : Outcome :=
  let incarnation := e.incarnation
  let doubted := e.doubtedBy frame.digest
  let merged := e.mergeDigestLiveness frame.digest now
  let e := frame.digest.foldl (fun e d => e.refreshContentHash d.node now) merged.1
  let answer :=
    if (doubted && !e.leaving) || decide (incarnation < e.incarnation) then
      e.livenessNotice source e.localId now
    else []
  let out := Emit.andThen (e, merged.2 ++ answer) fun e => e.mergeMetadata frame.metadata
  out.andSay fun e => e.reconcile source frame.digest now

/-- Answers a request with the entries it asks for. -/
def onDeltaRequest (source : NodeId) (frame : Frame) (now : Time) : Outcome :=
  match e.buildDeltaFrame (frame.wants.map fun w => (w.node, w.haveVersion)) now with
  | some delta => (e, [.send source delta])
  | none => (e, [])

/-- Whether a merged section was cut short of what this node knows to exist. -/
def wantsMore (md : Wire.MemberDelta) : Bool :=
  !md.entries.isEmpty && decide (md.node ≠ e.localId) &&
    (e.members[md.node]?.any fun m => decide (md.maxVersion < m.maxStateVersion))

/-- Merges a delta and asks for the rest of every section that was cut short. -/
def onDelta (source : NodeId) (frame : Frame) (now : Time) : Outcome :=
  (e.mergeMembers frame.members now).andSay fun e =>
    let wants := (frame.members.filter e.wantsMore).map fun md =>
      (⟨md.node, md.maxVersion⟩ : Wire.NodeWant)
    if wants.isEmpty then [] else [e.sendDeltaRequest source wants]

end GroupEngine

end Groupnet
