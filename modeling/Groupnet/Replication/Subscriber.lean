import Groupnet.Replication.Policy

/-!
# Durable subscriptions

The requests and receipts of a named subscription.  A source registers a subscriber under
an epoch, protects the history after its acknowledged cursor and moves that cursor only
with an acknowledgement.  It ends a lineage with a tombstone.  Each receipt is checked
against the request it answers.
-/

namespace Groupnet.Replication

/-- A subscriber name within a scope. -/
structure SubscriberKey where
  scope : Scope
  name : String
deriving DecidableEq

/-- What a source promises to keep for a subscriber. -/
structure RetentionPolicy where
  fingerprint : List UInt8
  maxBytes : ℕ+
  maxEvents : ℕ+
  maxAgeMs : Nat
  maxLagEvents : ℕ+
deriving DecidableEq

inductive RetentionPolicyError where
  | emptyFingerprint
  | zeroMaxAge
deriving DecidableEq

def RetentionPolicy.validate (policy : RetentionPolicy) : Except RetentionPolicyError Unit :=
  if policy.fingerprint.isEmpty then .error .emptyFingerprint
  else if policy.maxAgeMs = 0 then .error .zeroMaxAge
  else .ok ()

/-- The bounds of a subscription session. -/
structure SubscriptionLimits where
  maxSubscriberBytes : ℕ+
  maxRequestBytes : ℕ+
  maxEpochBytes : ℕ+
  maxPolicyBytes : ℕ+
  maxRetainedBytes : ℕ+
  maxRetainedEvents : ℕ+
  maxRetainedAgeMs : Nat
  maxLagEvents : ℕ+
deriving DecidableEq

inductive SubscriptionLimitsError where
  | zeroMaxRetainedAge
deriving DecidableEq

def SubscriptionLimits.validate (limits : SubscriptionLimits) :
    Except SubscriptionLimitsError Unit :=
  if limits.maxRetainedAgeMs = 0 then .error .zeroMaxRetainedAge else .ok ()

inductive SubscriptionError where
  | identity (error : IdentityError)
  | limits (error : SubscriptionLimitsError)
  | retention (error : RetentionPolicyError)
  | bounds
  | history
  | binding
  | unsupported
  | historyUnavailable
  | backpressured
  | conditionalMismatch
  | expired
  | fenceLost
deriving DecidableEq

def validateRequestMetadata (key : SubscriberKey) (policy : RetentionPolicy)
    (requestId : List UInt8) (maxCursorBytes : Nat) (limits : SubscriptionLimits) :
    Except SubscriptionError Unit :=
  match limits.validate with
  | .error error => .error (.limits error)
  | .ok () =>
    match policy.validate with
    | .error error => .error (.retention error)
    | .ok () =>
      if key.name.isEmpty ∨ limits.maxSubscriberBytes < key.name.utf8ByteSize ∨
          requestId.isEmpty ∨ limits.maxRequestBytes < requestId.length ∨
          limits.maxPolicyBytes < policy.fingerprint.length ∨
          limits.maxRetainedBytes < policy.maxBytes ∨ limits.maxRetainedEvents < policy.maxEvents ∨
          limits.maxRetainedAgeMs < policy.maxAgeMs ∨ limits.maxLagEvents < policy.maxLagEvents then
        .error .bounds
      else (key.scope.validate maxCursorBytes).mapError .identity

/-- A subscriber's fence: its ordinal only grows. -/
structure SubscriptionEpoch where
  ordinal : ℕ+
  history : SourceHistory
  native : List UInt8
deriving DecidableEq

/-! ## The end of a lineage -/

inductive TerminalReason where
  | unsubscribed
  | expired
  | irrecoverableGap
deriving DecidableEq

/-- Ends one lineage, if it stands exactly where the request says. -/
structure TerminalRequest where
  key : SubscriberKey
  epoch : SubscriptionEpoch
  acknowledged : Cursor
  requestId : List UInt8
  reason : TerminalReason
deriving DecidableEq

def TerminalRequest.validate (request : TerminalRequest) (maxCursorBytes : Nat)
    (limits : SubscriptionLimits) : Except SubscriptionError Unit :=
  match request.key.scope.validate maxCursorBytes with
  | .error error => .error (.identity error)
  | .ok () =>
    match limits.validate with
    | .error error => .error (.limits error)
    | .ok () =>
      if request.key.name.isEmpty ∨ limits.maxSubscriberBytes < request.key.name.utf8ByteSize ∨
          request.epoch.native.isEmpty ∨ limits.maxEpochBytes < request.epoch.native.length ∨
          request.requestId.isEmpty ∨ limits.maxRequestBytes < request.requestId.length then
        .error .bounds
      else if request.epoch.history ≠ request.acknowledged.history then .error .history
      else (request.acknowledged.validate request.key.scope maxCursorBytes).mapError .identity

/-- The tombstone of a lineage. -/
structure TerminalReceipt where
  request : TerminalRequest
  tombstoneOrdinal : ℕ+
  durable : Bool
deriving DecidableEq

def TerminalReceipt.validateAgainst (receipt : TerminalReceipt) (request : TerminalRequest) :
    Except SubscriptionError Unit :=
  if ¬ receipt.durable ∨ receipt.request ≠ request then .error .binding
  else if receipt.tombstoneOrdinal ≠ request.epoch.ordinal then .error .fenceLost
  else .ok ()

/-! ## Registration -/

structure RegisterSubscriber where
  key : SubscriberKey
  incarnation : ℕ+
  start : Cursor
  policy : RetentionPolicy
  requestId : List UInt8
  /-- The ordinal the source must find. -/
  expectedPriorOrdinal : Option ℕ+
  /-- The tombstone a reset starts from. -/
  resetFrom : Option TerminalReceipt
deriving DecidableEq

/-- Takes a name up again from what its source acknowledged. -/
structure ResumeSubscriber where
  key : SubscriberKey
  incarnation : ℕ+
  policy : RetentionPolicy
  requestId : List UInt8
deriving DecidableEq

def ResumeSubscriber.validate (request : ResumeSubscriber) (maxCursorBytes : Nat)
    (limits : SubscriptionLimits) : Except SubscriptionError Unit :=
  validateRequestMetadata request.key request.policy request.requestId maxCursorBytes limits

def RegisterSubscriber.validate (request : RegisterSubscriber) (maxCursorBytes : Nat)
    (limits : SubscriptionLimits) : Except SubscriptionError Unit :=
  match validateRequestMetadata request.key request.policy request.requestId maxCursorBytes
    limits with
  | .error error => .error error
  | .ok () =>
    match request.start.validate request.key.scope maxCursorBytes with
    | .error error => .error (.identity error)
    | .ok () =>
      match request.resetFrom with
      | none => .ok ()
      | some prior =>
        match prior.request.validate maxCursorBytes limits with
        | .error error => .error error
        | .ok () =>
          match prior.validateAgainst prior.request with
          | .error error => .error error
          | .ok () =>
            if prior.request.key ≠ request.key ∨
                request.expectedPriorOrdinal ≠ some prior.tombstoneOrdinal then .error .binding
            else .ok ()

/-- A registration, with the suffix it protects. -/
structure RegisterReceipt where
  key : SubscriberKey
  incarnation : ℕ+
  requestId : List UInt8
  epoch : SubscriptionEpoch
  /-- The cursor whose suffix is kept. -/
  guarded : Cursor
  proof : SourceProof
  retainedToGuarded : BoundComparison
  guardedToHead : BoundComparison
  policyFingerprint : List UInt8
deriving DecidableEq

def RegisterReceipt.validateAgainst (receipt : RegisterReceipt) (request : RegisterSubscriber)
    (maxCursorBytes : Nat) (limits : SubscriptionLimits) : Except SubscriptionError Unit :=
  match request.validate maxCursorBytes limits with
  | .error error => .error error
  | .ok () =>
    if receipt.key ≠ request.key ∨ receipt.incarnation ≠ request.incarnation ∨
        receipt.requestId ≠ request.requestId ∨
        receipt.policyFingerprint ≠ request.policy.fingerprint then .error .binding
    else if receipt.epoch.native.isEmpty ∨ limits.maxEpochBytes < receipt.epoch.native.length then
      .error .bounds
    else if request.expectedPriorOrdinal.any fun prior => receipt.epoch.ordinal ≤ prior then
      .error .fenceLost
    else if receipt.epoch.history ≠ request.start.history ∨
        receipt.guarded.history ≠ request.start.history then .error .history
    else
      match receipt.guarded.validate request.key.scope maxCursorBytes with
      | .error error => .error (.identity error)
      | .ok () =>
        match receipt.proof.validate request.key.scope maxCursorBytes with
        | .error error => .error (.identity error)
        | .ok () =>
          if receipt.guarded ≠ request.start then .error .binding
          else if receipt.proof.head.history ≠ request.start.history ∨
              ¬ Comparison.reaches (receipt.retainedToGuarded.forOperands
                receipt.proof.retainedFrom receipt.guarded receipt.proof.id) ∨
              ¬ Comparison.reaches (receipt.guardedToHead.forOperands
                receipt.guarded receipt.proof.head receipt.proof.id) then .error .binding
          else .ok ()

/-- What a source holds for a name. -/
structure SourceSubscriberState where
  key : SubscriberKey
  epoch : SubscriptionEpoch
  acknowledged : Cursor
  policyFingerprint : List UInt8
  proof : SourceProof
  retainedToAck : BoundComparison
  ackToHead : BoundComparison
deriving DecidableEq

namespace SourceSubscriberState

/-- Checks what a source holds against a name.  A lineage is given up also where its
history is gone, but not taken up. -/
def validateCurrentWithGap (state : SourceSubscriberState) (key : SubscriberKey)
    (maxCursorBytes : Nat) (limits : SubscriptionLimits) (allowGap : Bool) :
    Except SubscriptionError Unit :=
  match key.scope.validate maxCursorBytes with
  | .error error => .error (.identity error)
  | .ok () =>
    if state.key ≠ key then .error .binding
    else
      match limits.validate with
      | .error error => .error (.limits error)
      | .ok () =>
        if key.name.isEmpty ∨ limits.maxSubscriberBytes < key.name.utf8ByteSize ∨
            state.policyFingerprint.isEmpty ∨
            limits.maxPolicyBytes < state.policyFingerprint.length then .error .bounds
        else if state.epoch.native.isEmpty ∨ limits.maxEpochBytes < state.epoch.native.length then
          .error .bounds
        else
          match state.acknowledged.validate key.scope maxCursorBytes with
          | .error error => .error (.identity error)
          | .ok () =>
            match state.proof.validate key.scope maxCursorBytes with
            | .error error => .error (.identity error)
            | .ok () =>
              if state.epoch.history ≠ state.acknowledged.history ∨
                  state.proof.head.history ≠ state.acknowledged.history then .error .history
              else
                let retainedToAck := state.retainedToAck.forOperands state.proof.retainedFrom
                  state.acknowledged state.proof.id
                if retainedToAck = some .after ∧ allowGap = false then
                  .error .historyUnavailable
                else if retainedToAck = none ∨
                    ¬ Comparison.reaches (state.ackToHead.forOperands state.acknowledged
                      state.proof.head state.proof.id) then .error .binding
                else .ok ()

def validateAgainst (state : SourceSubscriberState) (request : ResumeSubscriber)
    (maxCursorBytes : Nat) (limits : SubscriptionLimits) : Except SubscriptionError Unit :=
  match request.validate maxCursorBytes limits with
  | .error error => .error error
  | .ok () =>
    if state.key ≠ request.key ∨ state.policyFingerprint ≠ request.policy.fingerprint then
      .error .binding
    else state.validateCurrentWithGap request.key maxCursorBytes limits false

def validateTerminalTarget (state : SourceSubscriberState) (key : SubscriberKey)
    (maxCursorBytes : Nat) (limits : SubscriptionLimits) : Except SubscriptionError Unit :=
  state.validateCurrentWithGap key maxCursorBytes limits true

end SourceSubscriberState

/-- The sink's fence and the cursor it recovered. -/
structure FencedCheckpoint where
  key : SubscriberKey
  requestId : List UInt8
  epoch : SubscriptionEpoch
  cursor : Cursor
  durable : Bool
deriving DecidableEq

def FencedCheckpoint.validateAgainst (checkpoint : FencedCheckpoint) (receipt : RegisterReceipt)
    (maxCursorBytes : Nat) : Except SubscriptionError Unit :=
  if ¬ checkpoint.durable ∨ checkpoint.key ≠ receipt.key ∨
    checkpoint.requestId ≠ receipt.requestId ∨
      checkpoint.epoch ≠ receipt.epoch then .error .binding
  else if checkpoint.cursor.history ≠ receipt.epoch.history then .error .history
  else (checkpoint.cursor.validate receipt.key.scope maxCursorBytes).mapError .identity

/-! ## Delivery -/

/-- A batch the sink recorded, with the identifier of the acknowledgement to follow. -/
structure DurableDeliveryReceipt where
  operation : Operation
  key : SubscriberKey
  epoch : SubscriptionEpoch
  previousSink : Cursor
  through : Cursor
  /-- Where the sink stands, which may be further on. -/
  sinkCursor : Cursor
  ackRequestId : List UInt8
  durable : Bool
deriving DecidableEq

def DurableDeliveryReceipt.validateAgainst (receipt : DurableDeliveryReceipt)
    (operation : Operation) (registration : RegisterReceipt) (previousSink : Cursor) (batch : Batch)
    (maxCursorBytes : Nat) (limits : SubscriptionLimits) : Except SubscriptionError Unit :=
  if ¬ receipt.durable ∨ receipt.operation ≠ operation ∨ receipt.key ≠ registration.key ∨
      receipt.epoch ≠ registration.epoch ∨ receipt.previousSink ≠ previousSink ∨
      receipt.through ≠ batch.coverage.through then .error .binding
  else if receipt.ackRequestId.isEmpty ∨ limits.maxRequestBytes < receipt.ackRequestId.length then
    .error .bounds
  else (receipt.sinkCursor.validate registration.key.scope maxCursorBytes).mapError .identity

/-- Moves the acknowledged cursor, if it stands where the request says. -/
structure CommitSubscriberAck where
  key : SubscriberKey
  epoch : SubscriptionEpoch
  previous : Cursor
  through : Cursor
  proof : ProofId
  requestId : List UInt8
deriving DecidableEq

structure SubscriberAckReceipt where
  request : CommitSubscriberAck
  durable : Bool
deriving DecidableEq

def SubscriberAckReceipt.validateAgainst (receipt : SubscriberAckReceipt)
    (request : CommitSubscriberAck) :
    Except SubscriptionError Unit :=
  if receipt.durable ∧ receipt.request = request then .ok () else .error .binding

end Groupnet.Replication
