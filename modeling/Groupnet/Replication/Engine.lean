import Groupnet.Replication.Types

/-!
# The session engine

One session replays one scope for one replica.  It holds at most one operation of the
source or the application at a time, hands out operation tokens that are never used twice
and opens its gate to reads only at the head of its source.

A call leaves a new engine and a step.  No result means that the source panics there: a
failed `expect`, an index out of range, a word that overflows.
-/

namespace Groupnet.Replication

/-- What a delayed retry takes up again. -/
inductive RetryTarget where
  | tail
  | bootstrap
  | subscriptionCurrentRead
  | subscriptionReadback
  | subscriptionBind
  | subscriptionTail
  | subscriptionAckRead
  | subscriptionTerminalRead
deriving DecidableEq

inductive SessionProtocol where
  | replay
  | namedSubscription
deriving DecidableEq

structure SnapshotProgress where
  /-- The operation that acquired the hold. -/
  attempt : Option Operation
  totalDue : Time
  attached : Bool
  attachHead : Option Cursor
  hold : Option HoldReceipt
  offer : Option SnapshotOffer
  nextIndex : Nat
  nextOffset : Nat
  cursor : Option Cursor
  barrier : Option SourceProof
  batch : Option Batch
  pendingChunk : Option ChunkReceipt
  candidateId : Option Nat

/-- The cleanup of an attempt that is over. -/
structure CleanupState where
  op : Operation
  attempt : Operation
  disposition : SnapshotCleanupDisposition
  due : Time
  discarding : Bool

/-- The end of a lineage, under its own deadline. -/
structure TerminalProgress where
  requestId : List UInt8
  due : Time
  request : Option TerminalRequest
  receipt : Option TerminalReceipt

structure SubscriptionProgress where
  request : Option RegisterSubscriber
  resume : Option ResumeSubscriber
  detachedKey : Option SubscriberKey
  limits : SubscriptionLimits
  registration : Option RegisterReceipt
  sink : Option FencedCheckpoint
  sourceAck : Option Cursor
  pendingAck : Option CommitSubscriberAck
  terminal : Option TerminalProgress

structure SessionEngine where
  sessionId : Nat
  scope : Scope
  mode : Mode
  config : Config
  generation : Nat
  stage : Stage
  materialized : Option Cursor
  checkpoint : Option Cursor
  head : Option Cursor
  target : Option Cursor
  /-- The next operation token; zero when none is left. -/
  nextToken : Nat
  now : Time
  freshnessDue : Time
  tailDue : Time
  idle : IdleState
  retryDue : Option Time
  outstanding : Option (Operation × Stage)
  operationDue : Option Time
  revokeOp : Option Operation
  pendingTail : Bool
  retries : Nat
  pendingBatch : Option Batch
  bootstrapCandidate : Option (Cursor × Nat)
  retryTarget : RetryTarget
  proof : Option SourceProof
  snapshot : Option SnapshotProgress
  snapshotCleanup : Option CleanupState
  liveAttachmentAttempt : Option Operation
  ackWait : Option AckWait
  subscription : Option SubscriptionProgress
  protocol : SessionProtocol
  modeAuthority : Bool
  ready : Bool

/-- What a call leaves. -/
abbrev Outcome := Option (SessionEngine × Step)

/-- An accepted event. -/
def done (e : SessionEngine) (effects : List Effect) : Outcome := some (e, ⟨effects, none⟩)

/-- An event turned down. -/
def reject (e : SessionEngine) (reason : Reject) : Outcome := some (e, ⟨[], some reason⟩)

/-- The earlier of two deadlines. -/
def earliest : Option Time → Option Time → Option Time
  | some a, some b => some (min a b)
  | a, none => a
  | none, b => b

/-- How two positions lie under a proof. -/
def relation (comparisons : List BoundComparison) (left right : Cursor) (proof : SourceProof) :
    Except Reject Comparison :=
  if left.history ≠ proof.head.history ∨ right.history ≠ proof.head.history then .error .history
  else
    match comparisons.findSome? (BoundComparison.forOperands · left right proof.id) with
    | none | some .incomparable => .error .comparison
    | some order => .ok order

/-- The stage a missing stretch of history leads to. -/
def Mode.gapStage : Mode → Stage
  | .stateSync => .needsSnapshot
  | .eventComplete => .irrecoverableGap

def Mode.gapEffect : Mode → Effect
  | .stateSync => .needsSnapshot
  | .eventComplete => .irrecoverableGap

/-- The stages that take no hint, demand or activity. -/
def Stage.deaf : Stage → Bool
  | .cancelled | .retryWait | .retryExhausted | .guarded | .needsSnapshot | .snapshotAborted
  | .irrecoverableGap => true
  | _ => false

/-- The stages without a source check to come. -/
def Stage.halted : Stage → Bool
  | .cancelled | .retryExhausted | .needsSnapshot | .snapshotAborted | .irrecoverableGap => true
  | _ => false

namespace SessionEngine

def new (scope : Scope) (mode : Mode) (config : Config) (sessionId : Nat) :
    Except ConfigError SessionEngine :=
  match config.validate with
  | .error error => .error error
  | .ok () =>
    if sessionId = 0 then .error .zeroSession
    else
      match scope.validate config.maxCursorBytes with
      | .error error => .error (.identity error)
      | .ok () => .ok {
          sessionId := sessionId
          scope := scope
          mode := mode
          config := config
          generation := 1
          stage := .unready
          materialized := none
          checkpoint := none
          head := none
          target := none
          nextToken := 1
          now := 0
          freshnessDue := 0
          tailDue := 0
          idle := .start
          retryDue := none
          outstanding := none
          operationDue := none
          revokeOp := none
          pendingTail := false
          retries := 0
          pendingBatch := none
          bootstrapCandidate := none
          retryTarget := .tail
          proof := none
          snapshot := none
          snapshotCleanup := none
          liveAttachmentAttempt := none
          ackWait := none
          subscription := none
          protocol := .replay
          modeAuthority := false
          ready := false }

variable (e : SessionEngine)

/-- The operation of the source or the application that is under way. -/
def currentOperation : Option Operation := e.outstanding.map Prod.fst

/-! ## Deadlines -/

def terminalDue : Option Time :=
  e.subscription.bind fun progress => progress.terminal.map TerminalProgress.due

def subscriberTerminalDue : Option Time :=
  match e.stage with
  | .terminatedSubscriber | .retryExhausted | .cancelled | .irrecoverableGap => none
  | _ => e.terminalDue

/-- The tombstone, once the source confirmed it. -/
def subscriptionTerminal : Option TerminalReceipt :=
  e.subscription.bind fun progress => progress.terminal.bind TerminalProgress.receipt

/-- The deadline of the replay itself. -/
def ordinaryDue : Option Time :=
  if e.outstanding.isSome then e.operationDue
  else if e.stage = .retryWait then e.retryDue
  else if (e.proof.isSome ∨ e.stage = .guarded) ∧ e.stage.halted = false then some e.tailDue
  else none

def cleanupDue : Option Time :=
  e.snapshotCleanup.bind fun cleanup => if cleanup.discarding then none else some cleanup.due

def nextDeadline (e : SessionEngine) : Option Time :=
  let due := earliest e.ordinaryDue e.cleanupDue
  let due := earliest due (e.ackWait.map AckWait.nextDeadline)
  let due := earliest due (e.snapshot.map SnapshotProgress.totalDue)
  let due := earliest due e.subscriberTerminalDue
  earliest due (if e.ready then some e.freshnessDue else none)

def armed : List Effect := e.nextDeadline.toList.map .armTimer

/-! ## Operations -/

/-- The next token, or the engine without one. -/
def freshOperation : Except SessionEngine (SessionEngine × Operation) :=
  if e.nextToken = 0 then .error e
  else .ok ({ e with nextToken := (checkedAdd u64Max e.nextToken 1).getD 0 },
    ⟨e.sessionId, e.generation, e.nextToken⟩)

def issue (stage : Stage) : Except SessionEngine (SessionEngine × Operation) :=
  match checkedAdd u64Max e.now e.config.attemptTimeoutMs with
  | none => .error e
  | some due =>
    match e.freshOperation with
    | .error e => .error e
    | .ok (e, op) =>
      .ok ({ e with stage := stage, outstanding := some (op, stage), operationDue := some due }, op)

/-- Starts an operation and asks the driver for it: `commit` is what the engine notes
down, `timer` the deadline it arms and `spent` what it does without a token or a deadline. -/
def ask (stage : Stage) (spent : SessionEngine → Outcome) (timer : SessionEngine → Option Time)
    (commit : SessionEngine → SessionEngine) (effect : Operation → Effect) : Outcome :=
  match e.issue stage with
  | .error e => spent e
  | .ok (e, op) => do
    let due ← timer (commit e)
    done (commit e) [effect op, .armTimer due]

/-- Stops at a stage for lack of a token or a deadline. -/
def giveUp (stage : Stage) (e : SessionEngine) : Outcome :=
  reject { e with stage := stage } .exhausted

/-- Whether a completion answers the operation under way, in time. -/
def matchesOp (op : Operation) (stage : Stage) : Bool :=
  e.outstanding = some (op, stage) && op.session = e.sessionId && op.generation = e.generation &&
    e.operationDue.any (e.now < ·)

/-- Lets go of the operation under way. -/
def settle : SessionEngine := { e with outstanding := none, operationDue := none }

/-- Ends local serving. -/
def closeGate : SessionEngine × Step :=
  if e.ready then
    match freshOperation { e with ready := false } with
    | .error e =>
      ({ e with stage := .retryExhausted, revokeOp := none },
        ⟨[.revokeServingUnconfirmed], some .exhausted⟩)
    | .ok (e, op) => ({ e with revokeOp := some op }, ⟨[.revokeServing op], none⟩)
  else (e, ⟨[], none⟩)

/-! ## The tail of the source -/

def checkTail (e : SessionEngine) : Outcome :=
  match e.closeGate with
  | (e, closed) =>
    if closed.rejection.isSome then some (e, closed)
    else
      match issue { e with pendingTail := false } .checkingTail with
      | .error e => some ({ e with stage := .unready }, ⟨closed.effects, some .exhausted⟩)
      | .ok (e, op) => do
        let due ← e.nextDeadline
        done e (closed.effects ++ [.checkTail op e.scope e.materialized, .armTimer due])

/-- Checks the tail now, or after the operation under way. -/
def requestTail : Outcome :=
  if e.outstanding.isSome then done { e with pendingTail := true } [] else e.checkTail

def startScan : Outcome :=
  match e.materialized with
  | none => done { e with stage := .needsSnapshot } [.needsSnapshot]
  | some start =>
    e.ask .scanning (giveUp .unready) nextDeadline id fun op =>
      .scan op start e.config.maxBatchEvents e.config.maxBatchBytes

/-! ## Idle checks -/

/-- Sets the two schedules of an accepted proof: how long it is fresh and when the source is
checked next. -/
def recordTailSchedule (unchanged : Bool) :
    Option (Except SessionEngine SessionEngine) :=
  match checkedAdd u64Max e.now e.config.tailCheckMs with
  | none => some (.error e)
  | some fresh => do
    let (idle, interval) ← e.idle.checkedInterval unchanged e.config.idle e.config.tailCheckMs
      e.scope e.sessionId
    match interval.bind (checkedAdd u64Max e.now) with
    | none => some (.error { e with idle := idle })
    | some poll => some (.ok { e with idle := idle, freshnessDue := fresh, tailDue := poll })

def idleExhausted : Outcome :=
  match e.closeGate with
  | (e, closed) =>
    some ({ e.settle with stage := .retryExhausted, pendingTail := false, retryDue := none },
      ⟨closed.effects, some .exhausted⟩)

def forceHotNext (e : SessionEngine) : SessionEngine := { e with idle := e.idle.forceHotNext }

/-- A read or a floor: the next check comes early, or at once when the proof is stale. -/
def activity : Outcome :=
  if e.stage.deaf then done e []
  else
    let e := e.forceHotNext
    if e.stage = .checkingTail ∧ e.outstanding.isSome then done e []
    else if e.snapshot.isSome ∨ e.snapshotCleanup.isSome then done e []
    else if e.proof = none ∨ e.ready = false ∨ e.freshnessDue ≤ e.now then e.requestTail
    else
      match checkedAdd u64Max e.now e.config.tailCheckMs with
      | none => idleExhausted e
      | some normal =>
        let earlier := min normal e.freshnessDue
        if e.tailDue ≤ earlier then done e []
        else
          let e := { e with tailDue := earlier }
          done e e.armed

def expireFreshness : SessionEngine × Step :=
  if e.ready = false ∨ e.now < e.freshnessDue then (e, ⟨[], none⟩) else e.closeGate

/-! ## Bootstrap -/

def loadCheckpoint (e : SessionEngine) : Outcome :=
  ask { e with bootstrapCandidate := none } .loadingCheckpoint (giveUp .unready) operationDue id
    fun op => .loadCheckpoint op e.scope

def startBootstrap : Outcome :=
  if e.stage ≠ .unready ∨ e.outstanding.isSome ∨ e.snapshotCleanup.isSome then reject e .stage
  else loadCheckpoint { e with retryTarget := .bootstrap }

/-- Takes a checkpoint as the state of the replica and checks the tail from there. -/
def resumeState (cursor : Cursor) (nextGeneration : Bool) : Outcome :=
  match cursor.validate e.scope e.config.maxCursorBytes with
  | .error error => reject e (.identity error)
  | .ok () =>
    match e.closeGate with
    | (e, closed) =>
      if closed.rejection.isSome then some (e, closed)
      else
        match (if nextGeneration then checkedAdd u64Max e.generation 1 else some e.generation) with
        | none =>
          some ({ e with stage := .unready }, ⟨closed.effects, some .exhausted⟩)
        | some generation => do
          let dropTarget := nextGeneration || e.target.any (·.history ≠ cursor.history)
          let (e, check) ← checkTail { e.settle.forceHotNext with
            generation := generation
            materialized := some cursor
            checkpoint := some cursor
            head := none
            target := if dropTarget then none else e.target
            pendingBatch := none
            bootstrapCandidate := none
            retryTarget := .tail
            proof := none
            freshnessDue := 0
            tailDue := 0
            retries := 0
            retryDue := none
            revokeOp := none
            pendingTail := false }
          some (e, ⟨closed.effects ++ check.effects, check.rejection⟩)

/-- What a loaded checkpoint has to be.  No candidate means that there is no checkpoint. -/
def acceptCheckpoint (op : Operation) (cursor : Option Cursor) (payloadId : Option Nat) :
    Except Reject (Option (Cursor × Nat)) :=
  if e.matchesOp op .loadingCheckpoint = false then .error .staleOperation
  else
    match cursor, payloadId with
    | none, none => .ok none
    | some cursor, some payloadId =>
      match cursor.validate e.scope e.config.maxCursorBytes with
      | .error error => .error (.identity error)
      | .ok () =>
        if payloadId ≠ op.token then .error .discontinuity else .ok (some (cursor, payloadId))
    | _, _ => .error .discontinuity

def checkpointLoaded (op : Operation) (cursor : Option Cursor) (payloadId : Option Nat) : Outcome :=
  match e.acceptCheckpoint op cursor payloadId with
  | .error reason => reject e reason
  | .ok none => checkTail { e.settle with retryTarget := .tail }
  | .ok (some (cursor, payloadId)) =>
    -- a floor of another history cannot have been meant for this checkpoint
    ask { e with target := e.target.filter (·.history = cursor.history) } .installingCheckpoint
      (giveUp .unready) operationDue
      (fun e => { e with bootstrapCandidate := some (cursor, payloadId) })
      fun op => .installCheckpoint op cursor payloadId

def checkpointInstalled (op : Operation) (receipt : ApplyReceipt) : Outcome :=
  if e.matchesOp op .installingCheckpoint = false then reject e .staleOperation
  else
    match e.bootstrapCandidate with
    | none => reject e .stage
    | some (expected, _) =>
      if receipt.durable = false ∨ receipt.through ≠ expected then reject e .discontinuity
      else e.resumeState receipt.through false

/-! ## Named acknowledgements -/

def finishAckWait : Outcome :=
  match e.ackWait with
  | none => reject e .stage
  | some wait =>
    let e := { e with ackWait := none }
    done e (.ackWaitFinished wait.op wait.status :: e.armed)

def pollAckWait : Outcome :=
  match e.ackWait with
  | none => reject e .stage
  | some wait =>
    if wait.isTerminal ∨ wait.pollOp.isSome ∨ e.now < wait.nextDeadline then done e []
    else
      match checkedAdd u64Max e.now e.config.attemptTimeoutMs with
      | none => finishAckWait { e with ackWait := some wait.authorityLost }
      | some attemptDue =>
        match e.freshOperation with
        | .error e => finishAckWait { e with ackWait := some wait.authorityLost }
        | .ok (e, op) =>
          match wait.poll op e.now attemptDue with
          | (_, false) => none
          | (wait, true) =>
            let e := { e with ackWait := some wait }
            done e (.observeNamedAcks op wait.request wait.waiting wait.nextDeadline :: e.armed)

def startAckWait (request : AckWaitRequest) (limits : AckWaitLimits) : Outcome :=
  if e.ackWait.isSome then reject e .backpressure
  else if e.stage = .cancelled then reject e .stage
  else if e.nextToken = 0 then reject e .exhausted
  else
    match AckWait.new e.scope ⟨e.sessionId, e.generation, e.nextToken⟩ request limits e.now with
    | .error error => reject e (.ackWait error)
    | .ok wait =>
      match e.freshOperation with
      | .error e => reject e .exhausted
      | .ok (e, op) =>
        if op ≠ wait.op then none
        else
          let e := { e with ackWait := some wait }
          if wait.isTerminal then e.finishAckWait else e.pollAckWait

def observeAck (evidence : AckEvidence) : Outcome :=
  match e.ackWait with
  | none => reject e .staleOperation
  | some wait =>
    if wait.pollOp ≠ some evidence.op then reject e .staleOperation
    else do
      let (wait, error) ← wait.observe evidence e.now
      let e := { e with ackWait := some wait }
      if wait.isTerminal then e.finishAckWait
      else
        match error with
        | some error => reject e (.ackWait error)
        | none => e.pollAckWait

def ackChecked (op : Operation) : Outcome :=
  match e.ackWait with
  | none => reject e .staleOperation
  | some wait =>
    if wait.pollOp ≠ some op then reject e .staleOperation
    else
      match wait.checked op e.now with
      | (wait, none) =>
        let e := { e with ackWait := some wait }
        done e e.armed
      | (wait, some error) =>
        let e := { e with ackWait := some wait }
        if wait.isTerminal then e.finishAckWait else reject e (.ackWait error)

/-- Ends the wait for one of two reasons, when the operation is its own. -/
def endAckWait (op : Operation) (stop : AckWait → AckWait) : Outcome :=
  match e.ackWait with
  | none => reject e .staleOperation
  | some wait =>
    if op ≠ wait.op then reject e .staleOperation
    else finishAckWait { e with ackWait := some (stop wait) }

def ackAuthorityLost (op : Operation) : Outcome :=
  e.endAckWait op AckWait.authorityLost

def cancelAckWait (op : Operation) : Outcome := e.endAckWait op AckWait.cancel

def tickAckWait : Outcome :=
  match e.ackWait with
  | none => done e []
  | some wait =>
    let wait := wait.tick e.now
    if wait.isTerminal then finishAckWait { e with ackWait := some wait }
    else
      let wait := wait.expirePoll e.now
      let e := { e with ackWait := some wait }
      if wait.nextDeadline ≤ e.now then e.pollAckWait else done e []

def cancelAckWaitForGeneration : Outcome :=
  match e.ackWait with
  | none => done e []
  | some wait => finishAckWait { e with ackWait := some wait.cancel }

end SessionEngine

end Groupnet.Replication
