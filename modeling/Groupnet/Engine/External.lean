import Groupnet.Engine.Quorum

/-!
# Closing an epoch at an external anchor

Under `Activation.external` the engine prompts the driver on the gossip cadence and
consumes the outcome as a command.  A won round activates, or extends the lease of
a host at exactly that epoch.  A record of another host is adopted when it
outranks the adopted pair.
-/

namespace Groupnet

namespace GroupEngine

/-- Prompts the driver to run a claim round. -/
def externalClaimPrompt (e : GroupEngine) (epochHint : Nat) (antiEntropyDue : Bool) : List Effect :=
  if !e.isExternal || !antiEntropyDue then [] else [.anchorClaimDue epochHint]

/-- A host's renewal prompt, hinting the epoch it holds. -/
def externalRenewalPrompt (e : GroupEngine) : List Effect :=
  if !e.isExternal || !e.isCoordinator then []
  else [.anchorClaimDue ((e.election.map Election.epoch).getD 0)]

/-- The driver reports an anchor round it won. -/
def onAnchorActivated (e : GroupEngine) (epoch : Nat) (leaseUntil : Time) : Outcome :=
  if e.leaving then (e, [])
  else match e.election with
    | none => (e, [])
    | some el =>
      if !el.isExternal then (e, [])
      else if epoch < el.highestSeen then (e, [])
      else if el.epoch = epoch ∧ el.host.any (fun host => host ≠ e.localId) then (e, [])
      else if el.role = .host ∧ el.epoch = epoch then
        (e.modifyElection fun el => { el with leaseUntil := max el.leaseUntil leaseUntil }, [])
      else e.activate epoch leaseUntil

/-- The driver reports a record it did not win. -/
def onAnchorObserved (e : GroupEngine) (epoch : Nat) (host : NodeId) : Outcome :=
  match e.election with
  | none => (e, [])
  | some el =>
    if !el.isExternal then (e, [])
    else if cmpPair e.group (epoch, some host) (el.epoch, el.host) ≠ .gt then (e, [])
    else if host = e.localId then e.learnSelfNamed epoch
    else e.adopt epoch (some host)

end GroupEngine

end Groupnet
