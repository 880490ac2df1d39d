import Mathlib.Data.PNat.Basic
import Groupnet.Membership

/-!
# Identities of the peer bootstrap

Who takes part in building and handing over an index image, and which members a complete cut of
the group names.  A boot nonce tells two processes of one node apart.  Two cuts bind the same
membership when they name the same processes.  Status and incarnation are the observer's opinion
of a member and are not compared.
-/

namespace Groupnet.Bootstrap

/-- What one index image is of. -/
structure BootstrapScope where
  domain : String
  /-- A partition within the domain. -/
  partition : String
deriving DecidableEq

/-- A boot nonce, fresh for each process of a node. -/
abbrev BootId := Nat

/-- One attempt to build, of one session of one process. -/
structure ClaimIdentity where
  node : NodeId
  incarnation : BootId
  session : Nat
  attempt : Nat
deriving DecidableEq

/-- A process that takes part, independent of any attempt. -/
structure PresenceIdentity where
  node : NodeId
  boot : BootId
  session : Nat
deriving DecidableEq

/-- A member of a complete cut. -/
structure BootstrapMemberIdentity where
  node : NodeId
  /-- The process that takes part there, if one does. -/
  presence : Option PresenceIdentity
  memberIncarnation : Nat
  status : Status
deriving DecidableEq

namespace BootstrapMemberIdentity

/-- The member may give or receive an image. -/
def eligible (m : BootstrapMemberIdentity) : Bool := m.status = .alive

def matchesClaim (m : BootstrapMemberIdentity) (claim : ClaimIdentity) : Bool :=
  m.eligible && m.node = claim.node &&
    m.presence.any fun presence =>
      presence.boot = claim.incarnation && presence.session = claim.session

def validBounded (m : BootstrapMemberIdentity) (maxNodeBytes : Nat) : Bool :=
  !m.node.str.isEmpty && m.node.str.utf8ByteSize ≤ maxNodeBytes &&
    (!m.eligible || m.presence.isSome) &&
    m.presence.all fun presence =>
      presence.node = m.node && presence.boot ≠ 0 && presence.session ≠ 0

/-- The same process, or the same node without one. -/
def sameMember (m other : BootstrapMemberIdentity) : Bool :=
  m.node = other.node && m.presence = other.presence

end BootstrapMemberIdentity

def sameMembership (a b : List BootstrapMemberIdentity) : Bool :=
  a.length = b.length && (a.zip b).all fun pair => pair.1.sameMember pair.2

end Groupnet.Bootstrap
