import Mathlib.Data.PNat.Basic
import Groupnet.Id

/-!
# Native positions and evidence

The names a replica session works with.  A cursor is a position in one history of one
scope, and it is opaque: its order is whatever the source says.  A source says so in
comparisons, each bound to its two operands and to the proof it was made against, and a
session reads a comparison only for exactly these.

Fields that are nonzero by type in the source are positive numbers here.
-/

namespace Groupnet.Replication

/-- A named topic and payload type within a group. -/
structure Stream where
  group : String
  topic : String
  kind : String
deriving DecidableEq

/-- A partition of a stream. -/
structure Scope where
  stream : Stream
  part : String
deriving DecidableEq

structure SourceHistory where
  source : String
  generation : Nat
deriving DecidableEq

/-- A source's own position. -/
structure Cursor where
  scope : Scope
  history : SourceHistory
  position : List UInt8
deriving DecidableEq

inductive IdentityError where
  | empty
  | tooLarge
  | wrongScope
  | wrongHistory
deriving DecidableEq

def Scope.names (scope : Scope) : List String :=
  [scope.stream.group, scope.stream.topic, scope.stream.kind, scope.part]

/-- Checks every name of a scope. -/
def Scope.validate (scope : Scope) (maxBytes : Nat) : Except IdentityError Unit :=
  if scope.names.any String.isEmpty then .error .empty
  else if scope.names.any (fun name => maxBytes < name.utf8ByteSize) then .error .tooLarge
  else .ok ()

/-- Checks a cursor before it is kept. -/
def Cursor.validate (cursor : Cursor) (scope : Scope) (maxBytes : Nat) :
    Except IdentityError Unit :=
  if cursor.scope ≠ scope then .error .wrongScope
  else
    match cursor.scope.validate maxBytes with
    | .error error => .error error
    | .ok () =>
      if cursor.history.source.isEmpty ∨ cursor.position.isEmpty then .error .empty
      else if maxBytes < cursor.history.source.utf8ByteSize ∨ maxBytes < cursor.position.length then
        .error .tooLarge
      else .ok ()

/-! ## Evidence -/

/-- The name of one statement of a source. -/
structure ProofId where
  bytes : List UInt8
deriving DecidableEq

/-- How two positions of a history lie. -/
inductive Comparison where
  | before
  | equal
  | after
  | incomparable
deriving DecidableEq

/-- A comparison, with its operands and the proof it was made against. -/
structure BoundComparison where
  left : Cursor
  right : Cursor
  proof : ProofId
  order : Comparison
deriving DecidableEq

/-- The order, for exactly these operands and this proof. -/
def BoundComparison.forOperands (c : BoundComparison) (left right : Cursor) (proof : ProofId) :
    Option Comparison :=
  if c.left = left ∧ c.right = right ∧ c.proof = proof then some c.order else none

/-- Not after. -/
def Comparison.reaches : Option Comparison → Bool
  | some .before | some .equal => true
  | _ => false

/-- A committed cut of a source, and from where the source can replay up to it. -/
structure SourceProof where
  id : ProofId
  head : Cursor
  retainedFrom : Cursor
  /-- Whether the source also lets the replica serve. -/
  readAuthority : Bool
deriving DecidableEq

/-- Checks the names of a proof. -/
def SourceProof.validate (proof : SourceProof) (scope : Scope) (maxBytes : Nat) :
    Except IdentityError Unit :=
  match proof.head.validate scope maxBytes with
  | .error error => .error error
  | .ok () =>
    match proof.retainedFrom.validate scope maxBytes with
    | .error error => .error error
    | .ok () =>
      if proof.head.history ≠ proof.retainedFrom.history then .error .wrongHistory
      else if proof.id.bytes.isEmpty then .error .empty
      else if maxBytes < proof.id.bytes.length then .error .tooLarge
      else .ok ()

/-- A source's word that a batch holds every record after `start` and up to `through`. -/
structure Coverage where
  start : Cursor
  through : Cursor
  proof : ProofId
  certificate : List UInt8
deriving DecidableEq

/-- A bounded batch of a source.  The driver keeps its records under `payloadId`. -/
structure Batch where
  coverage : Coverage
  payloadId : Nat
  events : ℕ+
  bytes : ℕ+
  /-- The batch goes on from where it starts. -/
  advance : BoundComparison
  endToHead : BoundComparison
deriving DecidableEq

/-- What the application made visible. -/
structure ApplyReceipt where
  through : Cursor
  /-- Whether state and cursor can be recovered together. -/
  durable : Bool
deriving DecidableEq

/-- The name of one operation of one session. -/
structure Operation where
  session : Nat
  generation : Nat
  token : Nat
deriving DecidableEq

end Groupnet.Replication
