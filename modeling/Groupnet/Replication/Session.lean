import Groupnet.Replication.Snapshots
import Groupnet.Replication.Subscriptions

/-!
# The transition table

One event leads to one call.  The answers of the source to a tail check are here, the
retries, the clock and the end of a generation, and the table itself.
-/

namespace Groupnet.Replication

namespace SessionEngine

/-! ## Answers to a tail check -/

variable (e : SessionEngine)

/-- Opens the gate when the replica is at the head and at every floor. -/
def setReadyOrWait (comparisons : List BoundComparison) : Outcome :=
  match e.proof, e.materialized with
  | some proof, some materialized =>
    match relation comparisons materialized proof.head proof with
    | .error reason => reject e reason
    | .ok .before => e.startScan
    | .ok .after => reject e .discontinuity
    | .ok .incomparable => reject e .comparison
    | .ok .equal =>
      match e.target.map (relation comparisons materialized · proof) with
      | some (.error reason) => reject e reason
      | some (.ok .before) => done { e with stage := .unready } []
      | _ =>
        if e.snapshot.any (·.attached = false) then reject e .stage
        else
          match (e.snapshot.bind SnapshotProgress.attachHead).map
              (relation comparisons materialized · proof) with
          | some (.error reason) => reject e reason
          | some (.ok .before) => e.startScan
          | _ =>
            if e.freshnessDue ≤ e.now then e.checkTail
            else
              match finishSnapshot { e with stage := .ready, ready := true, retries := 0 } with
              | (e, effects) =>
                done e (effects ++
                  if e.config.idle.isSome ∧ e.freshnessDue < e.tailDue then e.armed else [])
  | _, _ => reject e .stage

/-- What a proof has to be: how the replica lies to the head and to the retained suffix. -/
def acceptTail (materialized : Cursor) (proof : SourceProof) (comparisons : List BoundComparison) :
    Except Reject (Comparison × Comparison) :=
  match allOf (relation comparisons materialized proof.head proof)
      (relation comparisons materialized proof.retainedFrom proof)
      (relation comparisons proof.retainedFrom proof.head proof) with
  | .error reason => .error reason
  | .ok (toHead, toLow, lowToHead) =>
    if toHead = .after ∨ lowToHead = .after then .error .discontinuity else .ok (toHead, toLow)

/-- Whether a proof says nothing new. -/
def unchanged (proof : SourceProof) (toHead toLow : Comparison) : Bool :=
  toHead = .equal && proof.readAuthority && toLow ≠ .before && !e.pendingTail &&
    e.snapshot.isNone &&
    e.head = some proof.head && e.proof.any (·.readAuthority = proof.readAuthority)

/-- The replica is behind the retained suffix. -/
def tailGap (timer : Effect) : Outcome :=
  if e.snapshot.isSome then e.abortSnapshot
  else if e.liveAttachmentAttempt.isSome then
    match cancelSnapshotResources { e with stage := .needsSnapshot } with
    | (e, effects) => done e (timer :: effects)
  else
    let e := { e with stage := e.mode.gapStage }
    if e.mode = .stateSync ∧ e.config.snapshot.isSome then do
      let (e, start) ← e.startSnapshot
      some (e, ⟨timer :: start.effects, start.rejection⟩)
    else done e [timer, e.mode.gapEffect]

/-- Replays, or serves from where the replica is. -/
def goOn (toHead : Comparison) (comparisons : List BoundComparison) : Outcome :=
  if toHead = .before then e.startScan else e.setReadyOrWait comparisons

/-- The replica can go on from where it is. -/
def tailCovered (timer : Effect) (hinted : Bool) (toHead : Comparison)
    (comparisons : List BoundComparison) : Outcome := do
  let (e, next) ← e.goOn toHead comparisons
  -- a hint came during the check, so what was just found is already old
  if hinted ∧ e.outstanding.isNone ∧ e.stage = .ready then do
    let (e, followup) ← checkTail { e with pendingTail := false }
    some (e, ⟨timer :: next.effects ++ followup.effects, followup.rejection.or next.rejection⟩)
  else some (e, ⟨timer :: next.effects, next.rejection⟩)

def tail (op : Operation) (proof : SourceProof) (comparisons : List BoundComparison) : Outcome :=
  if e.matchesOp op .checkingTail = false then reject e .staleOperation
  else
    match proof.validate e.scope e.config.maxCursorBytes with
    | .error error => reject e (.identity error)
    | .ok () =>
      match e.materialized with
      | none =>
        let e := { e.settle with stage := e.mode.gapStage }
        if e.mode = .stateSync ∧ e.config.snapshot.isSome then e.startSnapshot
        else done e [e.mode.gapEffect]
      | some materialized =>
        if e.snapshot.isSome ∧ materialized.history ≠ proof.head.history then e.abortSnapshot
        else
          match acceptTail materialized proof comparisons with
          | .error reason => reject e reason
          | .ok (toHead, toLow) => do
            match ← e.recordTailSchedule (e.unchanged proof toHead toLow) with
            | .error e => e.idleExhausted
            | .ok e =>
              let e := { e.settle with head := some proof.head, proof := some proof }
              let timer := .armTimer (e.nextDeadline.getD e.tailDue)
              let hinted := e.pendingTail
              let e := { e with pendingTail := false }
              if toLow = .before then e.tailGap timer
              else e.tailCovered timer hinted toHead comparisons

/-! ## Replay -/

def acceptBatch (op : Operation) (batch : Batch) : Except Reject Unit :=
  if e.matchesOp op .scanning = false then .error .staleOperation
  else
    match e.proof, e.materialized with
    | some proof, some start =>
      if batch.coverage.start ≠ start ∨ batch.coverage.proof ≠ proof.id ∨
          batch.coverage.through.history ≠ proof.head.history ∨ batch.coverage.certificate.isEmpty ∨
          e.config.maxCursorBytes < batch.coverage.certificate.length then .error .discontinuity
      else
        match batch.coverage.through.validate e.scope e.config.maxCursorBytes with
        | .error error => .error (.identity error)
        | .ok () =>
          if e.config.maxBatchEvents < batch.events ∨ e.config.maxBatchBytes < batch.bytes then
            .error .backpressure
          else if batch.advance.forOperands start batch.coverage.through proof.id ≠
              some .before then
            .error .discontinuity
          else
            match batch.endToHead.forOperands batch.coverage.through proof.head proof.id with
            | none => .error .comparison
            | some order =>
              if Comparison.reaches (some order) then .ok () else .error .discontinuity
    | _, _ => .error .stage

def scanned (op : Operation) (batch : Batch) : Outcome :=
  match e.acceptBatch op batch with
  | .error reason => reject e reason
  | .ok () =>
    e.ask .applying (giveUp .unready) (fun e => some (e.nextDeadline.getD e.tailDue))
      (fun e => { e with pendingBatch := some batch }) fun op => .apply op batch

def applied (op : Operation) (receipt : ApplyReceipt) : Outcome :=
  if e.matchesOp op .applying = false then reject e .staleOperation
  else
    match e.pendingBatch with
    | none => reject e .stage
    | some batch =>
      if receipt.through ≠ batch.coverage.through then reject e .discontinuity
      else
        requestTail { e.settle.forceHotNext with
          materialized := some receipt.through
          checkpoint := if receipt.durable then some receipt.through else e.checkpoint
          pendingBatch := none
          retries := 0 }

def hint : Outcome :=
  if e.protocol = .namedSubscription then
    if e.stage = .guarded then e.pollSubscriber else done e []
  else if e.stage.deaf then reject e .stage
  else e.forceHotNext.requestTail

def acceptDemand (cursor : Cursor) (comparison : Option BoundComparison) :
    Except Reject Cursor :=
  if e.protocol = .namedSubscription ∨ e.stage.deaf then .error .stage
  else
    match cursor.validate e.scope e.config.maxCursorBytes with
    | .error error => .error (.identity error)
    | .ok () =>
      if e.materialized.any (·.history ≠ cursor.history) then .error .history
      else
        match e.target with
        | none => .ok cursor
        | some existing =>
          match e.proof.bind fun proof =>
              comparison.bind (BoundComparison.forOperands · existing cursor proof.id) with
          | none => .error .comparison
          | some order =>
            if existing.history ≠ cursor.history ∨ order = .incomparable then .error .history
            else .ok (if order = .before then cursor else existing)

def demand (cursor : Cursor) (comparison : Option BoundComparison) : Outcome :=
  match e.acceptDemand cursor comparison with
  | .error reason => reject e reason
  | .ok target => requestTail { e.forceHotNext with target := some target }

def resume (cursor : Cursor) : Outcome :=
  if e.protocol = .namedSubscription ∨ e.snapshotCleanup.isSome then reject e .stage
  else if e.stage ∉ [.unready, .cancelled, .retryExhausted, .needsSnapshot, .snapshotAborted] then
    reject e .stage
  else e.resumeState cursor true

def invalidated (op : Operation) : Outcome :=
  if e.revokeOp ≠ some op ∨ op.session ≠ e.sessionId ∨ op.generation ≠ e.generation then
    reject e .staleOperation
  else done { e with revokeOp := none } []

def authority (allowed : Bool) : Outcome :=
  if e.protocol = .namedSubscription then done { e with modeAuthority := allowed } []
  else
    let changed := e.modeAuthority ≠ allowed
    let e := { e with modeAuthority := allowed }
    let e := if changed then e.forceHotNext else e
    if allowed ∧ changed ∧ e.materialized.isSome ∧ e.stage.deaf = false then e.requestTail
    else if allowed then done e []
    else
      match e.closeGate with
      | (e, closed) =>
        some (e, ⟨closed.effects ++
          if e.config.idle.isSome ∧ closed.effects.isEmpty = false then e.armed else [],
          closed.rejection⟩)

/-! ## Failures and the clock -/

def failReplay (op : Operation) : Outcome :=
  if e.outstanding.all (·.1 ≠ op) then reject e .staleOperation
  else
    let e := e.forceHotNext
    if e.snapshot.isSome then e.abortSnapshot
    else
      match e.closeGate with
      | (e, closed) =>
        if closed.rejection.isSome then some (e, closed)
        else
          let e := { e.settle with
            pendingBatch := none
            bootstrapCandidate := none
            retryTarget :=
              match e.stage with
              | .loadingCheckpoint | .installingCheckpoint => .bootstrap
              | _ => .tail
            retries := min (e.retries + 1) u32Max }
          if (e.config.maxRetries : Nat) ≤ e.retries then
            done { e with stage := .retryExhausted, retryDue := none } closed.effects
          else
            match checkedAdd u64Max e.now e.config.retryMs with
            | none =>
              some ({ e with stage := .unready }, ⟨closed.effects, some .exhausted⟩)
            | some due =>
              done { e with retryDue := some due, stage := .retryWait }
                (closed.effects ++ [.armTimer due])

def failed (op : Operation) : Outcome :=
  match e.failSubscriberTerminal op, e.failSubscriptionDelivery op, e.failSubscription op with
  | some result, _, _ => result
  | _, some result, _ => result
  | _, _, some result => result
  | none, none, none =>
    if e.snapshotCleanup.any (·.op = op) then e.expireSnapshotCleanup else e.failReplay op

/-- Takes up what a retry waits for. -/
def retry : Outcome :=
  match e.retryTarget with
  | .bootstrap => e.loadCheckpoint
  | .tail => e.checkTail
  | .subscriptionCurrentRead | .subscriptionReadback | .subscriptionBind => e.retrySubscription
  | .subscriptionTail | .subscriptionAckRead => e.retrySubscriptionDelivery
  | .subscriptionTerminalRead => e.retrySubscriberTerminal

/-- The stages a tick leaves alone. -/
def atRest : Stage → Bool
  | .cancelled | .retryExhausted | .needsSnapshot | .snapshotAborted | .irrecoverableGap
  | .terminatedSubscriber => true
  | _ => false

def tickReplayProgress (now : Time) : Outcome :=
  if e.subscriberTerminalDue.any (· ≤ now) ∧ e.subscriptionTerminal.isNone then
    e.expireSubscriberTerminal
  else if e.snapshotCleanup.any (fun cleanup => !cleanup.discarding && cleanup.due ≤ now) then
    e.expireSnapshotCleanup
  else if e.snapshot.any (·.totalDue ≤ now) then e.abortSnapshot
  else if atRest e.stage then done e []
  else
    match e.outstanding.filter fun _ => e.operationDue.any (· ≤ now) with
    | some (op, _) => e.failed op
    | none =>
      match e.retryDue with
      | some due => if due ≤ now then retry { e with retryDue := none } else done e []
      | none =>
        if e.mode = .eventComplete then
          if e.tailDue ≤ now ∧ e.stage = .guarded then e.pollSubscriber else done e []
        else if e.tailDue ≤ now ∧ e.stage ≠ .checkingTail then e.requestTail
        else done e []

def tickReplay (now : Time) : Outcome :=
  match e.expireFreshness with
  | (e, freshness) => do
    let (e, ordinary) ← e.tickReplayProgress now
    some (e, ⟨if freshness.effects.isEmpty then ordinary.effects
      else freshness.effects ++ ordinary.effects ++ e.armed,
      freshness.rejection.or ordinary.rejection⟩)

def tick (now : Time) : Outcome :=
  if now < e.now then reject e .discontinuity
  else do
    let hadAck := e.ackWait.isSome
    let (e, ack) ← tickAckWait { e with now := now }
    let (e, ordinary) ← e.tickReplay now
    let rearm := hadAck && (!ack.effects.isEmpty || !ordinary.effects.isEmpty)
    some (e, ⟨ordinary.effects ++ ack.effects ++ if rearm then e.armed else [], ordinary.rejection⟩)

/-! ## The end of a generation -/

/-- Lets go of everything the generation was about. -/
def endGeneration (stage : Stage) : SessionEngine :=
  { e.settle with
    stage := stage
    head := none
    target := none
    revokeOp := none
    pendingTail := false
    pendingBatch := none
    bootstrapCandidate := none
    subscription := none
    retryTarget := .tail
    proof := none
    idle := e.idle.reset
    retryDue := none }

/-- Cancels or supersedes the session, which rests at `stage` then. -/
def cancel (stage : Stage) : Outcome :=
  match e.cancelSnapshotResources with
  | (e, cleanup) => do
    let (e, ack) ← e.cancelAckWaitForGeneration
    match checkedAdd u64Max e.generation 1 with
    | none =>
      some ({ e.endGeneration .retryExhausted with ready := false },
        ⟨(if e.ready then [.revokeServingUnconfirmed] else []) ++ cleanup ++ ack.effects,
          some .exhausted⟩)
    | some generation =>
      match closeGate { e.endGeneration stage with generation := generation } with
      | (e, closed) => some (e, ⟨closed.effects ++ cleanup ++ ack.effects, closed.rejection⟩)

/-! ## The table -/

def step : Event → Outcome
  | .beginSubscriberTerminal requestId due => e.beginSubscriberTerminal requestId due
  | .subscriberTerminalCommitted op receipt => e.subscriberTerminalCommitted op receipt
  | .subscriberTerminalRead op receipt => e.subscriberTerminalRead op receipt
  | .pollSubscriber => e.pollSubscriber
  | .subscriberTail op proof comparisons => e.subscriberTail op proof comparisons
  | .subscriberScanned op batch => e.subscriberScanned op batch
  | .subscriberApplied op receipt throughToSink previousToSink =>
    e.subscriberApplied op receipt throughToSink previousToSink
  | .subscriberAcked op receipt => e.subscriberAcked op receipt .ackingSubscriber
  | .subscriberAckRead op receipt => e.subscriberAckRead op receipt
  | .resumeSubscription request limits => e.resumeSubscription request limits
  | .startDetachedSubscriberTerminal key requestId due limits =>
    e.startDetachedSubscriberTerminal key requestId due limits
  | .currentSubscriberRead op state => e.currentSubscriberRead op state
  | .subscriberRejected op error => e.subscriberRejected op error
  | .startSubscription request limits => e.startSubscription request limits
  | .subscriberRegistered op receipt => e.subscriberRegistered op receipt
  | .subscriberRegistrationRead op receipt => e.subscriberRegistrationRead op receipt
  | .sinkEpochBound op checkpoint sourceToSink sinkToHead =>
    e.sinkEpochBound op checkpoint sourceToSink sinkToHead
  | .activity => if e.protocol = .namedSubscription then done e [] else e.activity
  | .startAckWait request limits => e.startAckWait request limits
  | .ackObserved evidence => e.observeAck evidence
  | .ackChecked op => e.ackChecked op
  | .ackAuthorityLost op => e.ackAuthorityLost op
  | .cancelAckWait op => e.cancelAckWait op
  | .startSnapshot => e.startSnapshot
  | .snapshotHeld op receipt => e.snapshotHeld op receipt
  | .snapshotOffered op offer => e.snapshotOffered op offer
  | .snapshotOpened op chargedBytes => e.snapshotOpened op chargedBytes
  | .snapshotRead op chunk => e.snapshotRead op chunk
  | .snapshotWritten op index through chargedBytes =>
    e.snapshotWritten op index through chargedBytes
  | .snapshotVerified op chargedBytes => e.snapshotVerified op chargedBytes
  | .snapshotBarrier op proof comparisons => e.snapshotBarrier op proof comparisons
  | .snapshotScanned op batch => e.snapshotScanned op batch
  | .snapshotApplied op through chargedBytes => e.snapshotApplied op through chargedBytes
  | .snapshotSealed op through payloadId chargedBytes =>
    e.snapshotSealed op through payloadId chargedBytes
  | .snapshotInstalled op receipt => e.snapshotInstalled op receipt
  | .snapshotAttached op proof comparisons => e.snapshotAttached op proof comparisons
  | .snapshotCleaned op => e.snapshotCleaned op
  | .snapshotDiscarded op disposition => e.snapshotDiscarded op disposition
  | .startBootstrap => if e.protocol = .namedSubscription then reject e .stage else e.startBootstrap
  | .checkpointLoaded op cursor payloadId => e.checkpointLoaded op cursor payloadId
  | .checkpointInstalled op receipt => e.checkpointInstalled op receipt
  | .resume cursor => e.resume cursor
  | .hint => e.hint
  | .demand cursor comparison => e.demand cursor comparison
  | .tick now => e.tick now
  | .tail op proof comparisons => e.tail op proof comparisons
  | .scanned op batch => e.scanned op batch
  | .applied op receipt => e.applied op receipt
  | .invalidated op => e.invalidated op
  | .authority allowed => e.authority allowed
  | .failed op => e.failed op
  | .cancel => e.cancel .cancelled
  | .supersede => e.cancel .unready

end SessionEngine

end Groupnet.Replication
