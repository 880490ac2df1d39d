import Groupnet.Config
import Groupnet.Lib.Register
import Groupnet.Lib.Word

/-!
# The anchor record and the claim rule

What a claimant writes into a linearizable register to become host, and the rules that
decide it.  All instants here are wall-clock milliseconds, and all sums saturate.

The store's version marker is opaque to the source, which only carries it from a read to
the write that is conditional on it.  Here it is the version of a `History` of writes.
-/

namespace Groupnet

/-- Who holds the group, under which epoch, and until when by the holder's wall clock. -/
structure AnchorRecord where
  epoch : Nat
  host : NodeId
  expiresAtWallMs : Nat
deriving DecidableEq

/-- Whether a claimant other than the holder may supersede the record. -/
def AnchorRecord.stealable (rec : AnchorRecord) (nowWallMs stealMarginMs : Nat) : Bool :=
  decide (satAdd rec.expiresAtWallMs stealMarginMs ≤ nowWallMs)

/-- What a claimant should do with the anchor. -/
inductive ClaimPlan where
  /-- Write the record if the object is absent. -/
  | create (record : AnchorRecord)
  /-- Write the record if the object is still at the version that was loaded. -/
  | supersede (record : AnchorRecord)
  | yield (retryAtWallMs : Nat)
deriving DecidableEq

/-- The two numbers anchor rounds run on. -/
structure AnchorTerms where
  ttlMs : Nat
  stealMarginMs : Nat
deriving DecidableEq

namespace AnchorTerms

def planClaim (t : AnchorTerms) (me : NodeId) (epochHint : Nat) (loaded : Option AnchorRecord)
    (nowWallMs : Nat) : ClaimPlan :=
  let expiresAtWallMs := satAdd nowWallMs t.ttlMs
  match loaded with
  | none => .create ⟨max epochHint 1, me, expiresAtWallMs⟩
  | some current =>
    if current.host = me ∨ current.stealable nowWallMs t.stealMarginMs then
      .supersede ⟨max (satAdd current.epoch 1) epochHint, me, expiresAtWallMs⟩
    else .yield (satAdd current.expiresAtWallMs t.stealMarginMs)

/-- What a holder writes to extend the epoch it has. -/
def renewalRecord (t : AnchorTerms) (me : NodeId) (epoch nowWallMs : Nat) : AnchorRecord :=
  ⟨epoch, me, satAdd nowWallMs t.ttlMs⟩

end AnchorTerms

/-- Whether a write without an answer applied, by what is read back. -/
def ambiguousApplied (me : NodeId) (attempted : AnchorRecord) (reread : Option AnchorRecord) :
    Bool :=
  reread.any fun rec => decide (rec.host = me) && decide (rec = attempted)

theorem ambiguousApplied_iff {me : NodeId} {attempted : AnchorRecord}
    {reread : Option AnchorRecord} :
    ambiguousApplied me attempted reread = true ↔ reread = some attempted ∧
      attempted.host = me := by
  cases reread with
  | none => simp [ambiguousApplied]
  | some rec =>
    simp only [ambiguousApplied, Option.any_some, Bool.and_eq_true, decide_eq_true_eq,
      Option.some.injEq]
    constructor
    · rintro ⟨hhost, rfl⟩
      exact ⟨rfl, hhost⟩
    · rintro ⟨rfl, hhost⟩
      exact ⟨hhost, rfl⟩

/-- The store's version marker for the anchor object. -/
abbrev AnchorToken := Nat

abbrev AnchorWriteIf := WriteIf

/-- One conditional write that was issued. -/
structure Write where
  /-- Sets apart the writes of a run. -/
  ticket : Nat
  node : NodeId
  pre : AnchorWriteIf
  record : AnchorRecord
  /-- Whether it claims an epoch, rather than extend or release one. -/
  claims : Bool
deriving DecidableEq

/-- What a read returns. -/
abbrev Loaded := Option (AnchorRecord × AnchorToken)

/-- What a read of the anchor object returns. -/
def History.anchor (h : History Write) : Loaded := h.load.map fun l => (l.1.record, l.2)

end Groupnet
