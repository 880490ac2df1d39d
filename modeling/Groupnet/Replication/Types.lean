import Groupnet.Replication.AckWait
import Groupnet.Replication.Subscriber

/-!
# The inputs and outputs of a session

A session is driven by events alone.  It answers each with effects for its driver and,
when it turns the event down, with a rejection.  `guarded` is the stage the source calls
protected.
-/

namespace Groupnet.Replication

inductive Stage where
  | unready
  | registering
  | readingCurrentSubscriber
  | readingRegistration
  | bindingSink
  | guarded
  | checkingSubscriberTail
  | scanningSubscriber
  | applyingSubscriber
  | ackingSubscriber
  | readingSubscriberAck
  | terminatingSubscriber
  | readingSubscriberTerminal
  | terminatedSubscriber
  | loadingCheckpoint
  | installingCheckpoint
  | snapshotHolding
  | snapshotOffering
  | snapshotOpening
  | snapshotReading
  | snapshotWriting
  | snapshotVerifying
  | snapshotBarrier
  | snapshotScanning
  | snapshotApplying
  | snapshotSealing
  | snapshotInstalling
  | snapshotAttaching
  | checkingTail
  | scanning
  | applying
  | retryWait
  | needsSnapshot
  | irrecoverableGap
  | snapshotAborted
  | cancelled
  | retryExhausted
  | ready
deriving DecidableEq

/-! ## Snapshots -/

inductive SnapshotCleanupDisposition where
  /-- The live attachment does. -/
  | completed
  /-- Nothing does. -/
  | aborted
deriving DecidableEq

/-- A source's word that it holds a history back for an attempt. -/
structure HoldReceipt where
  request : Operation
  history : SourceHistory
  retainedUntil : Time
  certificate : List UInt8

/-- A consistent cut of a source and the image of it. -/
structure SnapshotOffer where
  scope : Scope
  schema : List UInt8
  cut : Cursor
  proof : SourceProof
  cutToHead : BoundComparison
  retainedToCut : BoundComparison
  totalBytes : ℕ+
  chunks : ℕ+
  digest : List UInt8
  certificate : List UInt8

/-- The bytes a cursor is charged for, field by field. -/
def Cursor.lengths (cursor : Cursor) : List Nat :=
  cursor.scope.names.map String.utf8ByteSize ++
    [cursor.history.source.utf8ByteSize, cursor.position.length]

def SnapshotOffer.chargedMetadataBytes (offer : SnapshotOffer) : Option Nat :=
  let fields := [offer.schema.length, offer.digest.length, offer.certificate.length,
    offer.proof.id.bytes.length, offer.cutToHead.proof.bytes.length,
    offer.retainedToCut.proof.bytes.length] ++ offer.scope.names.map String.utf8ByteSize
  let cursors := [offer.cut, offer.proof.head, offer.proof.retainedFrom, offer.cutToHead.left,
    offer.cutToHead.right, offer.retainedToCut.left, offer.retainedToCut.right]
  (fields ++ cursors.flatMap Cursor.lengths).foldlM (checkedAdd u64Max) 0

/-- The place of a chunk.  Its bytes stay with the worker. -/
structure ChunkReceipt where
  index : Nat
  offset : Nat
  bytes : ℕ+
  payloadId : Nat

/-! ## Steps -/

/-- Why an event was turned down. -/
inductive Reject where
  | ackWait (error : AckWaitError)
  | subscription (error : SubscriptionError)
  | identity (error : IdentityError)
  | staleOperation
  | comparison
  | history
  | backpressure
  | discontinuity
  | exhausted
  | stage
deriving DecidableEq

/-- What a session asks its driver for. -/
inductive Effect where
  | checkSubscriberTail (op : Operation) (registration : RegisterReceipt) (start : Cursor)
  | scanSubscriber (op : Operation) (registration : RegisterReceipt) (start : Cursor)
      (maxEvents maxBytes : Nat)
  | applySubscriberBatch (op : Operation) (registration : RegisterReceipt) (batch : Batch)
      (previousSink : Cursor)
  | commitSubscriberAck (op : Operation) (request : CommitSubscriberAck)
  | readSubscriberAck (op : Operation) (request : CommitSubscriberAck)
  | commitSubscriberTerminal (op : Operation) (request : TerminalRequest)
  | readSubscriberTerminal (op : Operation) (request : TerminalRequest)
  | readCurrentSubscriber (op : Operation) (key : SubscriberKey)
  | registerSubscriber (op : Operation) (request : RegisterSubscriber)
  | readSubscriberRegistration (op : Operation) (key : SubscriberKey) (requestId : List UInt8)
  | bindSinkEpoch (op : Operation) (registration : RegisterReceipt)
  | observeNamedAcks (op : Operation) (request : AckWaitRequest) (waiting : List RequiredSubscriber)
      (due : Time)
  | ackWaitFinished (op : Operation) (outcome : AckWaitOutcome)
  | acquireSnapshotHold (op : Operation) (scope : Scope) (totalDue : Time)
  | offerSnapshot (op : Operation) (scope : Scope)
  | openSnapshotStage (op : Operation) (offer : SnapshotOffer) (maxCandidateBytes : Nat)
  | readSnapshotChunk (op : Operation) (index offset maxBytes : Nat)
  | writeSnapshotChunk (op : Operation) (chunk : ChunkReceipt)
  | verifySnapshotImage (op : Operation) (digest : List UInt8)
  | snapshotReplayBarrier (op : Operation) (start : Cursor)
  | snapshotScan (op : Operation) (start : Cursor) (maxEvents maxBytes : Nat)
  | snapshotApply (op : Operation) (batch : Batch)
  | sealSnapshotStage (op : Operation) (through : Cursor)
  | installSnapshot (op : Operation) (cursor : Cursor) (payloadId : Nat)
  | attachSnapshot (op : Operation) (after : Cursor)
  | cleanupSnapshot (op attempt : Operation) (disposition : SnapshotCleanupDisposition) (due : Time)
  | discardSnapshotResources (op attempt : Operation) (disposition : SnapshotCleanupDisposition)
  | loadCheckpoint (op : Operation) (scope : Scope)
  | installCheckpoint (op : Operation) (cursor : Cursor) (payloadId : Nat)
  | checkTail (op : Operation) (scope : Scope) (start : Option Cursor)
  | scan (op : Operation) (start : Cursor) (maxEvents maxBytes : Nat)
  | apply (op : Operation) (batch : Batch)
  | revokeServing (op : Operation)
  | revokeServingUnconfirmed
  | armTimer (due : Time)
  | needsSnapshot
  | irrecoverableGap

/-- What a driver tells a session. -/
inductive Event where
  | pollSubscriber
  | subscriberTail (op : Operation) (proof : SourceProof) (comparisons : List BoundComparison)
  | subscriberScanned (op : Operation) (batch : Batch)
  | subscriberApplied (op : Operation) (receipt : DurableDeliveryReceipt)
      (throughToSink previousToSink : BoundComparison)
  | subscriberAcked (op : Operation) (receipt : SubscriberAckReceipt)
  | subscriberAckRead (op : Operation) (receipt : Option SubscriberAckReceipt)
  | beginSubscriberTerminal (requestId : List UInt8) (due : Time)
  | subscriberTerminalCommitted (op : Operation) (receipt : TerminalReceipt)
  | subscriberTerminalRead (op : Operation) (receipt : Option TerminalReceipt)
  | resumeSubscription (request : ResumeSubscriber) (limits : SubscriptionLimits)
  | startDetachedSubscriberTerminal (key : SubscriberKey) (requestId : List UInt8) (due : Time)
      (limits : SubscriptionLimits)
  | currentSubscriberRead (op : Operation) (state : Option SourceSubscriberState)
  | subscriberRejected (op : Operation) (error : SubscriptionError)
  | startSubscription (request : RegisterSubscriber) (limits : SubscriptionLimits)
  | subscriberRegistered (op : Operation) (receipt : RegisterReceipt)
  | subscriberRegistrationRead (op : Operation) (receipt : Option RegisterReceipt)
  | sinkEpochBound (op : Operation) (checkpoint : FencedCheckpoint)
      (sourceToSink sinkToHead : BoundComparison)
  | activity
  | startAckWait (request : AckWaitRequest) (limits : AckWaitLimits)
  | ackObserved (evidence : AckEvidence)
  | ackChecked (op : Operation)
  | ackAuthorityLost (op : Operation)
  | cancelAckWait (op : Operation)
  | startSnapshot
  | snapshotHeld (op : Operation) (receipt : HoldReceipt)
  | snapshotOffered (op : Operation) (offer : SnapshotOffer)
  | snapshotOpened (op : Operation) (chargedBytes : Nat)
  | snapshotRead (op : Operation) (chunk : ChunkReceipt)
  | snapshotWritten (op : Operation) (index through chargedBytes : Nat)
  | snapshotVerified (op : Operation) (chargedBytes : Nat)
  | snapshotBarrier (op : Operation) (proof : SourceProof) (comparisons : List BoundComparison)
  | snapshotScanned (op : Operation) (batch : Batch)
  | snapshotApplied (op : Operation) (through : Cursor) (chargedBytes : Nat)
  | snapshotSealed (op : Operation) (through : Cursor) (payloadId chargedBytes : Nat)
  | snapshotInstalled (op : Operation) (receipt : ApplyReceipt)
  | snapshotAttached (op : Operation) (proof : SourceProof) (comparisons : List BoundComparison)
  | snapshotCleaned (op : Operation)
  | snapshotDiscarded (op : Operation) (disposition : SnapshotCleanupDisposition)
  | startBootstrap
  | checkpointLoaded (op : Operation) (cursor : Option Cursor) (payloadId : Option Nat)
  | checkpointInstalled (op : Operation) (receipt : ApplyReceipt)
  | resume (cursor : Cursor)
  | hint
  | demand (cursor : Cursor) (comparison : Option BoundComparison)
  | tick (now : Time)
  | tail (op : Operation) (proof : SourceProof) (comparisons : List BoundComparison)
  | scanned (op : Operation) (batch : Batch)
  | applied (op : Operation) (receipt : ApplyReceipt)
  | invalidated (op : Operation)
  | authority (allowed : Bool)
  | failed (op : Operation)
  | cancel
  | supersede

/-- The answer to one event. -/
structure Step where
  effects : List Effect
  rejection : Option Reject

end Groupnet.Replication
