import Groupnet.Engine.Fencing

/-!
# Closing an epoch on a majority of a static roster

Under `Activation.quorum` a claim activates the instant a majority of the roster
has granted it.  A voter's ledger is one pair and a promise.  A claimant counts
grants into a round anchored at the instant the claim was sent, and a host renews
by opening a round for the epoch it holds.  A leaving host resigns its epoch, and
each voter ends its promise to it.
-/

namespace Groupnet

open Wire (LeadBody)

/-! ## The voter's ledger -/

/-- What a voter does with one claim. -/
inductive Verdict where
  /-- A new pair: write it down, then answer. -/
  | fresh
  /-- The pair already granted, asked for again. -/
  | again
  | refuse
deriving DecidableEq

/-- The voter's rule over its ledger. -/
def grantVerdict (leaving : Bool) (granted : Option (Nat × NodeId)) (resigned : Bool)
    (grantPromiseUntil now : Time) (epoch : Nat) (claimant : NodeId) : Verdict :=
  if leaving then .refuse
  else match granted with
    | none => if grantPromiseUntil ≤ now then .fresh else .refuse
    | some (grantedEpoch, grantedClaimant) =>
      if grantedEpoch = epoch ∧ grantedClaimant = claimant then
        -- A resigned pair is never answered again.
        if resigned then .refuse else .again
      else if epoch ≤ grantedEpoch then .refuse
      else if grantedClaimant = claimant ∨ grantPromiseUntil ≤ now then .fresh
      else .refuse

namespace QuorumState

variable (q : QuorumState)

def verdict (leaving : Bool) (now : Time) (epoch : Nat) (claimant : NodeId) :
    Verdict :=
  grantVerdict leaving q.granted q.resigned q.grantPromiseUntil now epoch claimant

/-- The ledger after a verdict.  A grant and a re-grant both renew the promise. -/
def recorded (verdict : Verdict) (leaseMs : Nat) (now : Time) (epoch : Nat) (claimant : NodeId) :
    QuorumState :=
  match verdict with
  | .refuse => q
  | .fresh =>
    { q with
      granted := some (epoch, claimant)
      resigned := false
      grantPromiseUntil := satAdd now leaseMs }
  | .again => { q with grantPromiseUntil := satAdd now leaseMs }

def opened (now : Time) : QuorumState :=
  { q with roundSentAt := now, roundGrants := ∅, roundRefused := ∅ }

/-- Counts a voter into the round. -/
def counted (granter : NodeId) : QuorumState :=
  { q with roundGrants := q.roundGrants.insert granter }

/-- Marks a voter as one the round can never win. -/
def refusedBy (granter : NodeId) : QuorumState :=
  if q.roundGrants.contains granter then q
  else { q with roundRefused := q.roundRefused.insert granter }

/-- Ends the promise to a pair that was resigned. -/
def released (epoch : Nat) (host : NodeId) (now : Time) : QuorumState :=
  if q.granted = some (epoch, host) then
    { q with resigned := true, grantPromiseUntil := min q.grantPromiseUntil now }
  else q

def receipted (me voter : NodeId) (epoch : Nat) (host : Option NodeId) :
    QuorumState :=
  match q.resigning with
  | none => q
  | some (resigned, pending) =>
    if resigned < epoch ∨ (epoch = resigned ∧ host ≠ some me) then
      { q with resigning := some (resigned, pending.erase voter) }
    else q

end QuorumState

namespace GroupEngine

variable (e : GroupEngine)

def quorumVoters : Option VoterRoster := e.election.bind Election.voters

/-- Whether the group closes its epochs by grant majority. -/
def isQuorum : Bool := e.quorumVoters.isSome

/-- Whether this node ever grants at all. -/
def isVoter : Bool := e.quorumVoters.any fun r => r.contains e.localId

def quorum (e : GroupEngine) : Option QuorumState := e.election.bind Election.quorum

def modifyQuorum (e : GroupEngine) (f : QuorumState → QuorumState) : GroupEngine :=
  e.modifyElection fun el => el.modifyQuorum f

def leaseMs (e : GroupEngine) : Nat := (e.election.map fun el => el.cfg.leaseMs).getD 0

/-- Applies the voter's rule to the ledger, reporting the verdict. -/
def recordGrant (epoch : Nat) (claimant : NodeId) (now : Time) :
    GroupEngine × Verdict :=
  if !e.isVoter then (e, .refuse)
  else match e.quorum with
    | none => (e, .refuse)
    | some q =>
      let verdict := q.verdict e.leaving now epoch claimant
      (e.modifyQuorum fun q => q.recorded verdict e.leaseMs now epoch claimant, verdict)

def persistOf (verdict : Verdict) (epoch : Nat) (claimant : NodeId) : List Effect :=
  match verdict with
  | .fresh => [.persistGrant epoch claimant]
  | .again | .refuse => []

/-- The answer to a claim refused on its epoch: the pair already granted. -/
def floorAnswer (epoch : Nat) (claimant : NodeId) : List Effect :=
  if e.leaving || !e.isVoter || decide (claimant = e.localId) then []
  else match e.quorum.bind QuorumState.granted with
    | none => []
    | some (grantedEpoch, grantedClaimant) =>
      if grantedEpoch < epoch then []
      else if epoch = grantedEpoch ∧ claimant = grantedClaimant then []
      else [e.sendLead claimant (.grant grantedEpoch grantedClaimant e.localId)]

/-- The voter's answer to a claim, or silence. -/
def onClaimAsVoter (epoch : Nat) (claimant : NodeId) (now : Time) : Outcome :=
  let recorded := e.recordGrant epoch claimant now
  let e := recorded.1
  if recorded.2 = .refuse then (e, e.floorAnswer epoch claimant)
  else (e, persistOf recorded.2 epoch claimant ++
    [e.sendLead claimant (.grant epoch claimant e.localId)])

/-! ## The round -/

/-- Turns a majority into a hostship, or into a longer lease. -/
def closeRoundIfMajority (epoch : Nat) : Outcome :=
  match e.election with
  | none => (e, [])
  | some el =>
    match el.voters, el.quorum with
    | some voters, some q =>
      if q.roundGrants.size < voters.majority then (e, [])
      else
        let leaseUntil := satAdd q.roundSentAt el.cfg.leaseMs
        match el.role with
        | .claimant => e.activate epoch leaseUntil
        | .host =>
          (e.modifyElection fun el =>
            { el with leaseUntil := max el.leaseUntil leaseUntil }, [])
        | .follower => (e, [])
    | _, _ => (e, [])

/-- This node's own grant for its own claim, counted straight into the round. -/
def selfGrant (epoch : Nat) (now : Time) : Outcome :=
  let recorded := e.recordGrant epoch e.localId now
  if recorded.2 = .refuse then (recorded.1, [])
  else
    let e := recorded.1.modifyQuorum fun q => q.counted e.localId
    Emit.andThen (e, persistOf recorded.2 epoch e.localId) fun e => e.closeRoundIfMajority epoch

/-- Whether this node's own grant is already counted. -/
def selfInRound : Bool := e.quorum.any fun q => q.roundGrants.contains e.localId

/-- Re-attempts this node's own grant for a round that is still open. -/
def quorumRetrySelfGrant (epoch : Nat) (now : Time) : Outcome :=
  if !e.isVoter || e.selfInRound then (e, []) else e.selfGrant epoch now

/-- Opens a grant round anchored to this instant. -/
def quorumOpenRound (epoch : Nat) (now : Time) : Outcome :=
  match e.quorum with
  | none => (e, [])
  | some _ => (e.modifyQuorum fun q => q.opened now).selfGrant epoch now

def otherVoters : List NodeId :=
  (e.quorumVoters.map fun r => r.voters.filter fun v => v ≠ e.localId).getD []

/-- Every live peer, and under a roster every voter whether or not it is known. -/
def claimTargets : List NodeId :=
  match e.quorumVoters with
  | none => e.probeCandidates
  | some _ =>
    ((e.probeCandidates ++ e.otherVoters).foldl (fun s n => s.insert n)
      (∅ : Std.TreeSet NodeId)).toList

def broadcastClaim (epoch : Nat) : List Effect :=
  e.claimTargets.map fun dest => e.sendLead dest (.claim epoch e.localId)

def claimIsRenewal (epoch : Nat) (claimant : NodeId) : Bool :=
  e.isQuorum && e.election.any fun el =>
    decide (el.epoch = epoch) && decide (el.host = some claimant)

/-- Learns the epoch of a voter's grant, and drops a claim too few voters are left
for. -/
def learnGrantedEpoch (epoch : Nat) (claimant granter : NodeId) : GroupEngine :=
  match e.election with
  | none => e
  | some el =>
    let e := e.modifyElection fun el => { el with highestSeen := max el.highestSeen epoch }
    let refuses := decide (el.role = .claimant) && el.claim.any fun c =>
      decide (c.epoch < epoch) || (decide (c.epoch = epoch) && decide (claimant ≠ e.localId))
    if !refuses then e
    else match el.voters, el.quorum with
      | some voters, some q =>
        let e := e.modifyQuorum fun q => q.refusedBy granter
        if voters.len - (q.refusedBy granter).roundRefused.size < voters.majority then
          e.abandonClaim
        else e
      | _, _ => e

/-- Whether this node runs a round for `epoch`. -/
def standingAt (epoch : Nat) : Bool :=
  e.election.any fun el =>
    match el.role with
    | .claimant => el.claim.any fun c => decide (c.epoch = epoch)
    | .host => decide (el.epoch = epoch)
    | .follower => false

/-- An inbound grant, dropped or counted. -/
def onLeadGrant (epoch : Nat) (claimant granter : NodeId) : Outcome :=
  if !e.isQuorum then (e, [])
  else if !(e.quorumVoters.any fun r => r.contains granter) then (e, [])
  else
    let e := e.learnGrantedEpoch epoch claimant granter
    if claimant ≠ e.localId then (e, [])
    else if !e.standingAt epoch then (e, [])
    else (e.modifyQuorum fun q => q.counted granter).closeRoundIfMajority epoch

/-- A host's renewal round: re-claims the epoch it holds from the roster. -/
def renewalRound (now : Time) : Outcome :=
  if !e.isQuorum || !e.isCoordinator then (e, [])
  else match e.election with
    | none => (e, [])
    | some el =>
      if el.role ≠ .host then (e, [])
      else
        let targets := e.otherVoters
        let out := (e.modifyQuorum fun q => q.opened now).selfGrant el.epoch now
        out.andSay fun e => targets.map fun dest => e.sendLead dest (.claim el.epoch e.localId)

/-! ## Resigning -/

/-- What a leaving node gives up. -/
def resignEpoch : Option Nat :=
  if !e.isQuorum then none
  else e.election.bind fun el =>
    match el.role with
    | .host => some el.epoch
    | .claimant => el.claim.map Claim.epoch
    | .follower => none

def broadcastResign (epoch : Nat) : Outcome :=
  let voters := e.otherVoters.foldl (fun s n => s.insert n) (∅ : Std.TreeSet NodeId)
  let e := e.modifyQuorum fun q => { q with resigning := some (epoch, voters) }
  (e, e.claimTargets.map fun dest => e.sendLead dest (.resign epoch e.localId))

/-- The resign again to each voter that did not answer it. -/
def resendResign (antiEntropyDue : Bool) : List Effect :=
  match e.quorum.bind QuorumState.resigning with
  | none => []
  | some (epoch, pending) =>
    if antiEntropyDue then
      pending.toList.map fun dest => e.sendLead dest (.resign epoch e.localId)
    else []

def noteResignReceipt (source : NodeId) (epoch : Nat) (host : Option NodeId) :
    GroupEngine :=
  e.modifyQuorum fun q => q.receipted e.localId source epoch host

def onLeadResign (source : NodeId) (epoch : Nat) (host : NodeId) (now : Time) :
    Outcome :=
  if source ≠ host || !e.isQuorum then (e, [])
  else
    let e := e.modifyQuorum fun q => q.released epoch host now
    let receipt := if e.isVoter then [e.sendLead source (.state epoch none)] else []
    match e.election with
    | none => (e, receipt)
    | some el =>
      let e := e.modifyElection fun el => { el with highestSeen := max el.highestSeen epoch }
      if el.epoch = epoch ∧ el.host = some host then
        (e.modifyElection fun el => { el with host := none },
          .leadershipChanged epoch none :: receipt)
      else (e, receipt)

/-! ## Recovery -/

/-- What storage says a restarting voter had granted. -/
structure RecoveredGrant where
  /-- The last pair, or `none` when storage attests there never was one. -/
  pair : Option (Nat × NodeId)
deriving DecidableEq

/-- Hands a recovering engine what its storage holds. -/
def restore (recovered : RecoveredGrant) : GroupEngine :=
  e.modifyElection fun el =>
    match el.quorum with
    | none => el
    | some _ =>
      match recovered.pair with
      | none => el.modifyQuorum fun q => { q with grantPromiseUntil := 0 }
      | some pair =>
        { el.modifyQuorum fun q => { q with granted := some pair } with
          highestSeen := max el.highestSeen pair.1 }

end GroupEngine

end Groupnet
