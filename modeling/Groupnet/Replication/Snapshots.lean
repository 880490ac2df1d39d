import Groupnet.Replication.Engine

/-!
# Snapshot recovery

A state-sync session whose history is gone takes a snapshot.  It acquires a hold, stages the
image of a consistent cut in private, replays the source up to a barrier, installs the
result and attaches to the source again.  All of this is one attempt, named after the
operation that acquired the hold and bounded by one deadline.
-/

namespace Groupnet.Replication

namespace SessionEngine

variable (e : SessionEngine)

def snapshotLimits : Option SnapshotConfig := e.config.snapshot

def snapshotLive (op : Operation) (stage : Stage) : Bool :=
  e.matchesOp op stage && e.snapshot.any (e.now < ·.totalDue)

/-- Goes on with the attempt in progress, when the completion is one of its own. -/
def onSnapshot (op : Operation) (stage : Stage) (next : SnapshotProgress → Outcome) : Outcome :=
  if e.snapshotLive op stage = false then reject e .staleOperation
  else
    match e.snapshot with
    | none => reject e .stage
    | some progress => next progress

/-- Notes down how far the attempt is. -/
def noteSnapshot (progress : SnapshotProgress) : SessionEngine :=
  { e with snapshot := some progress }

/-! ## The end of an attempt -/

def freshOr (op : Operation) : SessionEngine × Operation :=
  match e.freshOperation with
  | .error e => (e, op)
  | .ok fresh => fresh

/-- Lets go of the attempt and has its resources cleaned up. -/
def dropSnapshot (disposition : SnapshotCleanupDisposition) :
    SessionEngine × List Effect :=
  match e.snapshot with
  | none => (e, [])
  | some progress =>
    match progress.attempt with
    | none => ({ e with snapshot := none }, [])
    | some attempt =>
      match freshOr { e with snapshot := none } attempt,
          checkedAdd u64Max e.now e.config.attemptTimeoutMs with
      | (e, op), some due =>
        if op = attempt then
          ({ e with snapshotCleanup := some ⟨op, attempt, disposition, due, true⟩ },
            [.discardSnapshotResources op attempt disposition])
        else
          ({ e with snapshotCleanup := some ⟨op, attempt, disposition, due, false⟩ },
            [.cleanupSnapshot op attempt disposition due, .armTimer due])
      | (e, op), none =>
        ({ e with snapshotCleanup := some ⟨op, attempt, disposition, e.now, true⟩ },
          [.discardSnapshotResources op attempt disposition])

def finishSnapshot : SessionEngine × List Effect :=
  dropSnapshot { e with liveAttachmentAttempt := e.snapshot.bind SnapshotProgress.attempt }
    .completed

def abortSnapshot : Outcome :=
  match dropSnapshot { e with liveAttachmentAttempt := none } .aborted with
  | (e, cleanup) => done { e.settle with stage := .snapshotAborted, ready := false } cleanup

/-- Lets go of the attempt in progress, or else of the live attachment. -/
def cancelSnapshotResources : SessionEngine × List Effect :=
  if e.snapshot.isSome then e.dropSnapshot .aborted
  else
    match e.liveAttachmentAttempt with
    | none => (e, [])
    | some attempt =>
      match freshOr { e with liveAttachmentAttempt := none } attempt with
      | (e, op) =>
        ({ e with snapshotCleanup := some ⟨op, attempt, .aborted, e.now, true⟩ },
          [.discardSnapshotResources op attempt .aborted])

def expireSnapshotCleanup : Outcome :=
  match e.snapshotCleanup with
  | none => reject e .stage
  | some cleanup =>
    if cleanup.discarding then reject e .staleOperation
    else
      done { e with snapshotCleanup := some { cleanup with discarding := true } }
        [.discardSnapshotResources cleanup.op cleanup.attempt cleanup.disposition]

def snapshotCleaned (op : Operation) : Outcome :=
  match e.snapshotCleanup with
  | none => reject e .staleOperation
  | some cleanup =>
    if cleanup.op ≠ op ∨ cleanup.discarding then reject e .staleOperation
    else if cleanup.due ≤ e.now then e.expireSnapshotCleanup
    else done { e with snapshotCleanup := none } []

/-! ## An attempt -/

/-- The next operation of the attempt.  Without one the attempt is over. -/
def snapshotEffect (stage : Stage) (effect : Operation → Effect) : Outcome :=
  e.ask stage abortSnapshot nextDeadline id effect

def startSnapshot : Outcome :=
  if e.mode ≠ .stateSync ∨ e.config.snapshot = none ∨ e.snapshot.isSome ∨ e.snapshotCleanup.isSome ∨
      e.outstanding.isSome ∨ e.stage ∉ [.needsSnapshot, .snapshotAborted, .unready] then
    reject e .stage
  else do
    let limits ← e.snapshotLimits
    match checkedAdd u64Max e.now limits.maxTotalMs with
    | none => reject e .exhausted
    | some total =>
      match e.closeGate with
      | (e, closed) =>
        if closed.rejection.isSome then some (e, closed)
        else do
          let (e, step) ← snapshotEffect
            (e.noteSnapshot ⟨none, total, false, none, none, none, 0, 0, none, none, none, none,
              none⟩)
            .snapshotHolding fun op => .acquireSnapshotHold op e.scope total
          if step.rejection.isSome then some (e, ⟨closed.effects ++ step.effects, step.rejection⟩)
          else
            -- `expect`: the attempt may have been aborted just above
            let progress ← e.snapshot
            some (e.noteSnapshot { progress with attempt := e.currentOperation },
              ⟨closed.effects ++ step.effects, none⟩)

def snapshotDiscarded (op : Operation) (disposition : SnapshotCleanupDisposition) :
    Outcome :=
  match e.snapshotCleanup with
  | none => reject e .staleOperation
  | some cleanup =>
    if cleanup.op ≠ op ∨ cleanup.disposition ≠ disposition ∨ cleanup.discarding = false then
      reject e .staleOperation
    else
      let e := { e with snapshotCleanup := none }
      if e.stage = .needsSnapshot ∧ e.config.snapshot.isSome then e.startSnapshot else done e []

def snapshotHeld (op : Operation) (receipt : HoldReceipt) : Outcome :=
  e.onSnapshot op .snapshotHolding fun progress =>
    if receipt.request ≠ op ∨ receipt.history.source.isEmpty ∨
        e.config.maxCursorBytes < receipt.history.source.utf8ByteSize ∨
          receipt.certificate.isEmpty then
      reject e .discontinuity
    else do
      let limits ← e.snapshotLimits
      if limits.maxMetadataBytes < receipt.certificate.length ∨
          receipt.retainedUntil < progress.totalDue then reject e .discontinuity
      else
        snapshotEffect (e.noteSnapshot { progress with hold := some receipt }) .snapshotOffering
          fun op => .offerSnapshot op e.scope

def acceptOffer (limits : SnapshotConfig) (hold : HoldReceipt) (offer : SnapshotOffer) :
    Except Reject Unit :=
  let capacity : Nat := offer.chunks * limits.maxChunkBytes
  if offer.scope ≠ e.scope ∨ offer.cut.history ≠ hold.history ∨ offer.schema.isEmpty ∨
      offer.digest.isEmpty ∨ offer.certificate.isEmpty ∨
      offer.chargedMetadataBytes.all ((limits.maxMetadataBytes : Nat) < ·) ∨
      limits.maxSnapshotBytes < offer.totalBytes ∨ limits.maxChunks < offer.chunks ∨
      offer.totalBytes < offer.chunks ∨ u64Max < capacity ∨ capacity < offer.totalBytes then
    .error .backpressure
  else
    match offer.cut.validate e.scope e.config.maxCursorBytes,
        offer.proof.validate e.scope e.config.maxCursorBytes with
    | .error error, _ => .error (.identity error)
    | _, .error error => .error (.identity error)
    | .ok (), .ok () =>
      if offer.proof.head.history ≠ hold.history ∨
          Comparison.reaches (offer.cutToHead.forOperands offer.cut offer.proof.head
            offer.proof.id) = false ∨
          Comparison.reaches (offer.retainedToCut.forOperands offer.proof.retainedFrom offer.cut
            offer.proof.id) = false then .error .discontinuity
      else .ok ()

def snapshotOffered (op : Operation) (offer : SnapshotOffer) : Outcome :=
  e.onSnapshot op .snapshotOffering fun progress => do
    let limits ← e.snapshotLimits
    match progress.hold with
    | none => reject e .stage
    | some hold =>
      match e.acceptOffer limits hold offer with
      | .error reason => reject e reason
      | .ok () =>
        snapshotEffect
          (e.noteSnapshot { progress with cursor := some offer.cut, offer := some offer })
          .snapshotOpening fun op => .openSnapshotStage op offer limits.maxCandidateBytes

/-- Reads the next chunk, or verifies the image after the last one. -/
def snapshotNextChunk : Outcome :=
  match e.snapshot with
  | none => reject e .stage
  | some progress =>
    match progress.offer with
    | none => reject e .stage
    | some offer =>
      if progress.nextIndex = offer.chunks then
        if progress.nextOffset ≠ offer.totalBytes then reject e .discontinuity
        else e.snapshotEffect .snapshotVerifying fun op => .verifySnapshotImage op offer.digest
      else if offer.totalBytes < progress.nextOffset then none
      else do
        let limits ← e.snapshotLimits
        e.snapshotEffect .snapshotReading fun op =>
          .readSnapshotChunk op progress.nextIndex progress.nextOffset
            (min (offer.totalBytes - progress.nextOffset) limits.maxChunkBytes)

def snapshotOpened (op : Operation) (chargedBytes : Nat) : Outcome :=
  e.onSnapshot op .snapshotOpening fun _ => do
    let limits ← e.snapshotLimits
    if limits.maxCandidateBytes < chargedBytes then reject e .backpressure else e.snapshotNextChunk

def snapshotRead (op : Operation) (chunk : ChunkReceipt) : Outcome :=
  e.onSnapshot op .snapshotReading fun progress =>
    match progress.offer with
    | none => reject e .stage
    | some offer =>
      if chunk.index ≠ progress.nextIndex ∨ chunk.offset ≠ progress.nextOffset ∨
          chunk.payloadId ≠ op.token then reject e .discontinuity
      else do
        let limits ← e.snapshotLimits
        if limits.maxChunkBytes < chunk.bytes ∨
            (checkedAdd u64Max chunk.offset chunk.bytes).all ((offer.totalBytes : Nat) < ·) then
          reject e .discontinuity
        else
          snapshotEffect (e.noteSnapshot { progress with pendingChunk := some chunk })
            .snapshotWriting fun op => .writeSnapshotChunk op chunk

def snapshotWritten (op : Operation) (index through chargedBytes : Nat) : Outcome :=
  e.onSnapshot op .snapshotWriting fun progress => do
    let limits ← e.snapshotLimits
    match progress.offer, progress.pendingChunk with
    | some offer, some chunk =>
      if index ≠ progress.nextIndex then reject e .discontinuity
      else do
        let stop ← checkedAdd u64Max chunk.offset chunk.bytes
        if through ≠ stop ∨ offer.totalBytes < through ∨
            limits.maxCandidateBytes < chargedBytes then
          reject e .discontinuity
        else
          match checkedAdd u32Max progress.nextIndex 1 with
          | none => reject e .exhausted
          | some next =>
            snapshotNextChunk (e.noteSnapshot
              { progress with nextIndex := next, nextOffset := through, pendingChunk := none })
    | _, _ => reject e .stage

def snapshotVerified (op : Operation) (chargedBytes : Nat) : Outcome :=
  e.onSnapshot op .snapshotVerifying fun progress => do
    let limits ← e.snapshotLimits
    if limits.maxCandidateBytes < chargedBytes then reject e .backpressure
    else do
      let start ← progress.cursor
      e.snapshotEffect .snapshotBarrier fun op => .snapshotReplayBarrier op start

def snapshotScan (e : SessionEngine) : Outcome := do
  let start ← e.snapshot.bind SnapshotProgress.cursor
  e.snapshotEffect .snapshotScanning fun op =>
    .snapshotScan op start e.config.maxBatchEvents e.config.maxBatchBytes

def snapshotSeal : Outcome := do
  let through ← e.snapshot.bind SnapshotProgress.cursor
  e.snapshotEffect .snapshotSealing fun op => .sealSnapshotStage op through

/-- Whether a proof goes on with the held history from a position. -/
def attachesTo (progress : SnapshotProgress) (start : Cursor) (proof : SourceProof)
    (comparisons : List BoundComparison) : Except Reject Comparison :=
  if progress.hold.all (proof.head.history ≠ ·.history) then .error .history
  else
    match relation comparisons start proof.head proof,
        relation comparisons proof.retainedFrom start proof with
    | .ok toHead, .ok toLow =>
      if Comparison.reaches (some toHead) ∧ Comparison.reaches (some toLow) then .ok toHead
      else .error .discontinuity
    | _, _ => .error .comparison

def snapshotBarrier (e : SessionEngine) (op : Operation) (proof : SourceProof)
    (comparisons : List BoundComparison) : Outcome :=
  e.onSnapshot op .snapshotBarrier fun progress =>
    match proof.validate e.scope e.config.maxCursorBytes, progress.cursor with
    | .error error, _ => reject e (.identity error)
    | .ok (), none => reject e .stage
    | .ok (), some start =>
      match attachesTo progress start proof comparisons with
      | .error reason => reject e reason
      | .ok toHead =>
        let e := e.noteSnapshot { progress with barrier := some proof }
        if toHead = .equal then e.snapshotSeal else e.snapshotScan

def acceptSnapshotBatch (op : Operation) (proof : SourceProof) (start : Cursor) (batch : Batch) :
    Except Reject Unit :=
  if batch.payloadId ≠ op.token ∨ batch.coverage.start ≠ start ∨
      batch.coverage.through.history ≠ start.history ∨
      batch.coverage.through.history ≠ proof.head.history ∨ batch.coverage.proof ≠ proof.id ∨
      batch.coverage.certificate.isEmpty ∨
      e.config.maxCursorBytes < batch.coverage.certificate.length ∨
      e.config.maxBatchEvents < batch.events ∨ e.config.maxBatchBytes < batch.bytes ∨
      batch.advance.forOperands start batch.coverage.through proof.id ≠ some .before ∨
      Comparison.reaches (batch.endToHead.forOperands batch.coverage.through proof.head
        proof.id) = false then .error .discontinuity
  else (batch.coverage.through.validate e.scope e.config.maxCursorBytes).mapError .identity

def snapshotScanned (op : Operation) (batch : Batch) : Outcome :=
  e.onSnapshot op .snapshotScanning fun progress =>
    match progress.barrier, progress.cursor with
    | some proof, some start =>
      match e.acceptSnapshotBatch op proof start batch with
      | .error reason => reject e reason
      | .ok () =>
        snapshotEffect (e.noteSnapshot { progress with batch := some batch }) .snapshotApplying
          fun op => .snapshotApply op batch
    | _, _ => reject e .stage

def snapshotApplied (op : Operation) (through : Cursor) (chargedBytes : Nat) :
    Outcome :=
  e.onSnapshot op .snapshotApplying fun progress => do
    let limits ← e.snapshotLimits
    match progress.batch with
    | none => reject e .stage
    | some batch =>
      if through ≠ batch.coverage.through ∨ limits.maxCandidateBytes < chargedBytes then
        reject e .discontinuity
      else
        let e := e.noteSnapshot { progress with batch := none, cursor := some through }
        if batch.endToHead.order = .equal then e.snapshotSeal else e.snapshotScan

def snapshotSealed (op : Operation) (through : Cursor) (payloadId chargedBytes : Nat) : Outcome :=
  e.onSnapshot op .snapshotSealing fun progress => do
    let limits ← e.snapshotLimits
    if progress.cursor ≠ some through ∨ payloadId ≠ op.token ∨
        limits.maxCandidateBytes < chargedBytes then
      reject e .discontinuity
    else
      snapshotEffect (e.noteSnapshot { progress with candidateId := some payloadId })
        .snapshotInstalling fun op => .installSnapshot op through payloadId

def snapshotInstalled (op : Operation) (receipt : ApplyReceipt) : Outcome :=
  e.onSnapshot op .snapshotInstalling fun progress =>
    if receipt.durable = false ∨ progress.cursor ≠ some receipt.through ∨
        progress.candidateId = none then
      reject e .discontinuity
    else
      snapshotEffect
        { e with
          materialized := some receipt.through
          checkpoint := some receipt.through
          target := e.target.filter (·.history = receipt.through.history) }
        .snapshotAttaching fun op => .attachSnapshot op receipt.through

def snapshotAttached (op : Operation) (proof : SourceProof) (comparisons : List BoundComparison) :
    Outcome :=
  e.onSnapshot op .snapshotAttaching fun progress =>
    match proof.validate e.scope e.config.maxCursorBytes, progress.cursor with
    | .error error, _ => reject e (.identity error)
    | .ok (), none => reject e .stage
    | .ok (), some start =>
      match attachesTo progress start proof comparisons with
      | .error _ => reject e .discontinuity
      | .ok _ =>
        checkTail (settle (e.noteSnapshot
          { progress with attached := true, attachHead := some proof.head }))

end SessionEngine

end Groupnet.Replication
