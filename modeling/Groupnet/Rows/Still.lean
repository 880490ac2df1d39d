import Groupnet.Engine.Liveness

/-!
# What filing leaves alone

Filing, stamping and merging a member move the member map, the index and the cached
lists.  `Still` is the rest of an engine that anything else reads, and every such
function keeps it.
-/

namespace Groupnet

/-- The part of an engine that no change of a member's record moves. -/
structure Still where
  group : GroupId
  localId : NodeId
  config : Config
  incarnation : Nat
  leaving : Bool
  seeds : Std.TreeSet NodeId
  bootstrapContacts : Std.TreeSet NodeId
  metadata : Std.TreeMap String VersionedValue
  coordinator : Option NodeId
  authored : Std.TreeSet String
  nowHint : Time
  election : Option Election
  digestPeers : Std.TreeMap NodeId PeerDigest

namespace GroupEngine

variable (e : GroupEngine) (now : Time)

def still (e : GroupEngine) : Still :=
  ⟨e.group, e.localId, e.config, e.incarnation, e.leaving, e.seeds, e.bootstrapContacts,
    e.metadata, e.coordinator, e.authored, e.nowHint, e.election, e.digestPeers⟩

variable (node : NodeId)

@[simp] theorem still_modifyMember (f : Member → Member) :
    (e.modifyMember node f).still = e.still := by
  unfold modifyMember
  split <;> rfl

@[simp] theorem still_refileDue (was due : Time) :
    (e.refileDue node was due).still = e.still := by
  unfold refileDue
  split <;> rfl

@[simp] theorem still_refileLive (was : Option Nat) (live : Bool) :
    (e.refileLive node was live).1.still = e.still := by
  unfold refileLive
  split <;> rfl

@[simp] theorem still_reindex : (e.reindex node).still = e.still := by
  unfold reindex
  split
  · rfl
  · simp

@[simp] theorem still_restamp (stamp : Nat) : (e.restamp node stamp).still = e.still := by
  unfold restamp
  split <;> rfl

@[simp] theorem still_stamp : (e.stamp node).still = e.still := by
  unfold stamp
  simp only [still_reindex, still_restamp]
  rfl

@[simp] theorem still_stampSelf : e.stampSelf.still = e.still := still_stamp e _

/-- Forgetting a member drops its digest record too. -/
theorem still_forget :
    (e.forget node).still = { e.still with digestPeers := (e.forget node).digestPeers } := by
  unfold forget
  split
  · rfl
  · dsimp only
    split <;> split <;> split <;> split <;> first | rfl | (split <;> rfl)

@[simp] theorem still_probeRing : e.probeRing.1.still = e.still := by
  unfold probeRing
  split <;> rfl

@[simp] theorem still_refreshContentHash (now : Time) :
    (e.refreshContentHash node now).still = e.still := by
  unfold refreshContentHash
  split
  · rfl
  split
  · rfl
  · simp

/-! ## Merges and reaps -/

@[simp] theorem still_mergeRemoteLiveness (incarnation : Nat) (status : Status) (now : Time) :
    (e.mergeRemoteLiveness node incarnation status now).1.still = e.still := by
  unfold mergeRemoteLiveness
  dsimp only
  split
  · exact still_stamp _ _
  split
  · exact still_stamp _ _
  · rfl

theorem still_stampIf (b : Bool) (e : GroupEngine) (node : NodeId) :
    (if b then e.stamp node else e).still = e.still := by
  cases b with
  | false => rfl
  | true => exact still_stamp e node

@[simp] theorem still_mergePeerDelta (delta : Wire.MemberDelta) (status : Status) (now : Time) :
    (e.mergePeerDelta delta status now).1.still = e.still := by
  unfold mergePeerDelta
  dsimp only
  split
  · exact still_stamp _ _
  · exact still_stampIf _ _ _

@[simp] theorem still_mergeOwnEcho (entry : Wire.EntryDelta) (now : Time) :
    (e.mergeOwnEcho entry now).1.still = e.still := by
  unfold mergeOwnEcho
  split
  · rfl
  split
  · rfl
  split
  · split
    · rfl
    · exact still_stampSelf _
  · exact still_stampSelf _

@[simp] theorem still_mergeOwnEchoes (e : GroupEngine) (entries : List Wire.EntryDelta) :
    (mergeOwnEchoes now e entries).1.still = e.still := by
  induction entries generalizing e with
  | nil => rfl
  | cons entry rest ih => exact (ih _).trans (still_mergeOwnEcho e entry now)

@[simp] theorem still_bury (e : GroupEngine) (node : NodeId) : (bury now e node).still = e.still :=
  (still_stamp _ _).trans (still_modifyMember _ _ _)

@[simp] theorem still_reapMemberEntries (e : GroupEngine) (node : NodeId) :
    (reapMemberEntries now e node).1.still = e.still := by
  unfold reapMemberEntries
  split
  · rfl
  dsimp only
  split
  · rfl
  · exact still_reindex _ _

end GroupEngine

end Groupnet
