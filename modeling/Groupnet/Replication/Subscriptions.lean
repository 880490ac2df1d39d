import Groupnet.Replication.Engine

/-!
# Named subscriptions

An event-complete session can carry a named subscription.  It registers with the source,
fences its sink and then delivers batch after batch, each applied durably before it is
acknowledged.  An ambiguous answer is resolved by reading the request back.  At any time
the subscription can be given up, under a deadline of its own.
-/

namespace Groupnet.Replication

/-- Three answers, or the first of their errors. -/
def allOf (a b c : Except Reject Comparison) :
    Except Reject (Comparison × Comparison × Comparison) :=
  match a, b, c with
  | .error reason, _, _ => .error reason
  | _, .error reason, _ => .error reason
  | _, _, .error reason => .error reason
  | .ok a, .ok b, .ok c => .ok (a, b, c)

/-- The request that ends a lineage: the one made before, or one for where it stands now. -/
def SubscriptionProgress.terminalRequest (progress : SubscriptionProgress)
    (terminal : TerminalProgress) :
    Option TerminalRequest :=
  match terminal.request, progress.registration, progress.sourceAck with
  | some request, _, _ => some request
  | none, some registration, some acknowledged =>
    some ⟨registration.key, registration.epoch, acknowledged, terminal.requestId, .unsubscribed⟩
  | _, _, _ => none

namespace SessionEngine

variable (e : SessionEngine)

/-- A deadline that is not past the one given. -/
def clampOperation (due : Time) : SessionEngine :=
  { e with operationDue := e.operationDue.map (min · due) }

def failing (op : Operation) : Option Stage :=
  e.outstanding.bind fun current => if current.1 = op then some current.2 else none

/-- Takes a subscription operation up again later, if there are retries left. -/
def retryLater (target : RetryTarget) : Outcome :=
  match checkedAdd u32Max e.retries 1 with
  | none => giveUp .retryExhausted e.settle
  | some retries =>
    if e.config.maxRetries < retries then done { e.settle with stage := .retryExhausted } []
    else
      match checkedAdd u64Max e.now e.config.retryMs with
      | none => giveUp .retryExhausted e.settle
      | some due =>
        done { e.settle with
          retries := retries
          stage := .retryWait
          retryTarget := target
          retryDue := some due } [.armTimer due]

/-! ## The end of a lineage -/

def expireSubscriberTerminal : Outcome :=
  done { e.settle with stage := .retryExhausted, retryDue := none } []

def commitSubscriberTerminal (e : SessionEngine) : Outcome :=
  match e.subscription with
  | none => reject e .stage
  | some progress =>
    match progress.terminal with
    | none => reject e .stage
    | some terminal =>
      if terminal.due ≤ e.now then e.expireSubscriberTerminal
      else
        match progress.terminalRequest terminal with
        | none => reject e .stage
        | some request =>
          match request.validate e.config.maxCursorBytes progress.limits with
          | .error error => reject e (.subscription error)
          | .ok () =>
            ask { e with
              subscription := some { progress with
                terminal := some { terminal with request := some request } }
              retryDue := none
              pendingBatch := none } .terminatingSubscriber expireSubscriberTerminal operationDue
              (clampOperation · terminal.due) fun op => .commitSubscriberTerminal op request

/-- Ends the lineage, if that was asked for and nothing is left to acknowledge. -/
def maybeCommitSubscriberTerminal (otherwise : Outcome) : Outcome :=
  if e.subscription.any fun progress =>
      progress.terminal.any (·.receipt.isNone) && progress.pendingAck.isNone then
    e.commitSubscriberTerminal
  else otherwise

def readSubscriberTerminal (e : SessionEngine) : Outcome :=
  match e.subscription.bind SubscriptionProgress.terminal with
  | none => reject e .stage
  | some terminal =>
    match terminal.request with
    | none => reject e .stage
    | some request =>
      if terminal.due ≤ e.now then e.expireSubscriberTerminal
      else
        e.ask .readingSubscriberTerminal expireSubscriberTerminal operationDue
          (clampOperation · terminal.due) fun op => .readSubscriberTerminal op request

def beginSubscriberTerminal (requestId : List UInt8) (due : Time) : Outcome :=
  if e.mode ≠ .eventComplete ∨ e.protocol ≠ .namedSubscription ∨ due ≤ e.now ∨
      e.stage ∉ [.bindingSink, .guarded, .checkingSubscriberTail, .scanningSubscriber,
        .applyingSubscriber, .ackingSubscriber, .readingSubscriberAck, .retryWait] then reject e
          .stage
  else
    match e.subscription with
    | none => reject e .stage
    | some progress =>
      if progress.registration = none ∨ progress.sourceAck = none then reject e .stage
      else if progress.terminal.isSome ∨ requestId.isEmpty ∨
          progress.limits.maxRequestBytes < requestId.length then reject e (.subscription .bounds)
      else
        let e := { e with
          subscription := some { progress with terminal := some ⟨requestId, due, none, none⟩ }
          retries := 0 }
        if e.stage = .guarded ∨ e.stage = .retryWait ∧ progress.pendingAck = none then
          e.commitSubscriberTerminal
        else done e [.armTimer due]

def startDetachedSubscriberTerminal (key : SubscriberKey) (requestId : List UInt8) (due : Time)
    (limits : SubscriptionLimits) : Outcome :=
  if e.mode ≠ .eventComplete ∨ e.subscription.isSome ∨ e.stage ≠ .unready ∨
      e.config.snapshot.isSome ∨ due ≤ e.now then reject e .stage
  else if key.scope ≠ e.scope then reject e (.subscription (.identity .wrongScope))
  else
    match limits.validate with
    | .error error => reject e (.subscription (.limits error))
    | .ok () =>
      if key.name.isEmpty ∨ limits.maxSubscriberBytes < key.name.utf8ByteSize ∨
          requestId.isEmpty ∨ limits.maxRequestBytes < requestId.length then
        reject e (.subscription .bounds)
      else
        e.ask .readingCurrentSubscriber (reject · .exhausted) operationDue
          (fun e => { e.clampOperation due with
            subscription := some
              ⟨none, none, some key, limits, none, none, none, none,
                some ⟨requestId, due, none, none⟩⟩
            protocol := .namedSubscription })
          fun op => .readCurrentSubscriber op key

/-- A source that does not hold the name, or holds it without its history. -/
def refuseCurrent (error : SubscriptionError) : Outcome :=
  if error = .historyUnavailable then
    reject { e.settle with stage := .irrecoverableGap } (.subscription error)
  else reject e (.subscription error)

def detachedSubscriberCurrentRead (op : Operation) (state : Option SourceSubscriberState) :
    Outcome :=
  if e.matchesOp op .readingCurrentSubscriber = false then reject e .staleOperation
  else
    match e.subscription with
    | none => reject e .stage
    | some progress =>
      match progress.detachedKey, progress.terminal with
      | some key, some terminal =>
        match state with
        | none => e.refuseCurrent .historyUnavailable
        | some state =>
          match state.validateTerminalTarget key e.config.maxCursorBytes progress.limits with
          | .error error => e.refuseCurrent error
          | .ok () =>
            let request : TerminalRequest :=
              ⟨key, state.epoch, state.acknowledged, terminal.requestId, .unsubscribed⟩
            match request.validate e.config.maxCursorBytes progress.limits with
            | .error error => reject e (.subscription error)
            | .ok () =>
              commitSubscriberTerminal { e.settle with
                subscription := some { progress with
                  sourceAck := some state.acknowledged
                  terminal := some { terminal with request := some request } }
                retryDue := none
                retries := 0 }
      | _, _ => reject e .stage

def subscriberTerminalCommitted (op : Operation) (receipt : TerminalReceipt) : Outcome :=
  if e.matchesOp op .terminatingSubscriber = false ∧
      e.matchesOp op .readingSubscriberTerminal = false then
    reject e .staleOperation
  else
    match e.subscription with
    | none => reject e .stage
    | some progress =>
      match progress.terminal with
      | none => reject e .stage
      | some terminal =>
        match terminal.request with
        | none => reject e .stage
        | some request =>
          match receipt.validateAgainst request with
          | .error error => reject e (.subscription error)
          | .ok () =>
            done { e.settle with
              subscription := some { progress with
                terminal := some { terminal with receipt := some receipt } }
              retryDue := none
              stage := .terminatedSubscriber } []

def subscriberTerminalRead (op : Operation) (receipt : Option TerminalReceipt) : Outcome :=
  if e.matchesOp op .readingSubscriberTerminal = false then reject e .staleOperation
  else
    match receipt with
    | some receipt => e.subscriberTerminalCommitted op receipt
    | none => e.commitSubscriberTerminal

/-- No result when the operation is not one of these. -/
def failSubscriberTerminal (op : Operation) : Option Outcome :=
  match e.failing op with
  | some .terminatingSubscriber =>
    match checkedAdd u32Max e.retries 1 with
    | none => some (expireSubscriberTerminal e)
    | some retries =>
      if e.config.maxRetries < retries ∨ e.terminalDue.any (· ≤ e.now) then
        some e.expireSubscriberTerminal
      else some (readSubscriberTerminal { e.settle with retries := retries })
  | some .readingSubscriberTerminal =>
    match checkedAdd u32Max e.retries 1 with
    | none => some (expireSubscriberTerminal e)
    | some retries =>
      if e.config.maxRetries < retries ∨ e.terminalDue.any (· ≤ e.now) then
        some e.expireSubscriberTerminal
      else
        match checkedAdd u64Max e.now e.config.retryMs, e.terminalDue with
        | none, _ => some (expireSubscriberTerminal { e with retries := retries })
        | _, none => some (expireSubscriberTerminal { e with retries := retries })
        | some retry, some due =>
          some (done { e.settle with
            retries := retries
            retryDue := some (min retry due)
            retryTarget := .subscriptionTerminalRead
            stage := .retryWait } [.armTimer (min retry due)])
  | _ => none

def retrySubscriberTerminal : Outcome := e.readSubscriberTerminal

/-! ## Registration -/

/-- What a name starts from. -/
def subscribes : Bool :=
  e.mode = .eventComplete && e.subscription.isNone && e.stage = .unready && e.config.snapshot.isNone

def startSubscription (request : RegisterSubscriber) (limits : SubscriptionLimits) :
    Outcome :=
  if e.subscribes = false then reject e .stage
  else if request.key.scope ≠ e.scope then reject e (.subscription (.identity .wrongScope))
  else
    match request.validate e.config.maxCursorBytes limits with
    | .error error => reject e (.subscription error)
    | .ok () =>
      e.ask .registering (reject · .exhausted) operationDue
        (fun e => { e with
          subscription := some ⟨some request, none, none, limits, none, none, none, none, none⟩
          protocol := .namedSubscription })
        fun op => .registerSubscriber op request

def resumeSubscription (request : ResumeSubscriber) (limits : SubscriptionLimits) :
    Outcome :=
  if e.subscribes = false then reject e .stage
  else if request.key.scope ≠ e.scope then reject e (.subscription (.identity .wrongScope))
  else
    match request.validate e.config.maxCursorBytes limits with
    | .error error => reject e (.subscription error)
    | .ok () =>
      e.ask .readingCurrentSubscriber (reject · .exhausted) operationDue
        (fun e => { e with
          subscription := some ⟨none, some request, none, limits, none, none, none, none, none⟩
          protocol := .namedSubscription })
        fun op => .readCurrentSubscriber op request.key

def currentSubscriberRead (op : Operation) (state : Option SourceSubscriberState) :
    Outcome :=
  if e.matchesOp op .readingCurrentSubscriber = false then reject e .staleOperation
  else
    match e.subscription with
    | none => reject e .stage
    | some progress =>
      if progress.detachedKey.isSome then e.detachedSubscriberCurrentRead op state
      else
        match progress.resume, state with
        | none, _ => reject e .stage
        | some _, none => e.refuseCurrent .historyUnavailable
        | some resume, some state =>
          match state.validateAgainst resume e.config.maxCursorBytes progress.limits with
          | .error error => e.refuseCurrent error
          | .ok () =>
            let request : RegisterSubscriber :=
              ⟨resume.key, resume.incarnation, state.acknowledged, resume.policy,
                resume.requestId, some state.epoch.ordinal, none⟩
            ask { e.settle with
              subscription := some { progress with request := some request }
              retries := 0 } .registering (giveUp .retryExhausted) operationDue id
              fun op => .registerSubscriber op request

/-- The stages whose operation a source can turn down. -/
def subscribing : Stage → Bool
  | .readingCurrentSubscriber | .registering | .readingRegistration | .bindingSink
  | .checkingSubscriberTail | .scanningSubscriber | .applyingSubscriber | .ackingSubscriber
  | .readingSubscriberAck | .terminatingSubscriber | .readingSubscriberTerminal => true
  | _ => false

def subscriberRejected (op : Operation) (error : SubscriptionError) : Outcome :=
  match e.outstanding, e.subscription with
  | some (current, stage), some progress =>
    if current ≠ op ∨ e.matchesOp op stage = false ∨ subscribing stage = false then
      reject e .staleOperation
    else
      reject { e.settle with
        retryDue := none
        pendingBatch := none
        subscription := some { progress with pendingAck := none }
        stage :=
          match error with
          | .expired | .historyUnavailable | .fenceLost => .irrecoverableGap
          | _ => .retryExhausted } (.subscription error)
  | _, _ => reject e .staleOperation

def acceptRegistration (op : Operation) (stage : Stage) (receipt : RegisterReceipt) :
    Outcome :=
  if e.matchesOp op stage = false then reject e .staleOperation
  else
    match e.subscription with
    | none => reject e .stage
    | some progress =>
      match progress.request with
      | none => reject e .stage
      | some request =>
        match receipt.validateAgainst request e.config.maxCursorBytes progress.limits with
        | .error error => reject e (.subscription error)
        | .ok () =>
          ask { e.settle with
            subscription := some { progress with
              sourceAck := some receipt.guarded
              registration := some receipt }
            retries := 0 } .bindingSink (giveUp .retryExhausted) operationDue id
            fun op => .bindSinkEpoch op receipt

def subscriberRegistered (op : Operation) (receipt : RegisterReceipt) : Outcome :=
  e.acceptRegistration op .registering receipt

def subscriberRegistrationRead (op : Operation) (receipt : Option RegisterReceipt) :
    Outcome :=
  if e.matchesOp op .readingRegistration = false then reject e .staleOperation
  else
    match receipt with
    | some receipt => e.acceptRegistration op .readingRegistration receipt
    | none =>
      match e.subscription.bind SubscriptionProgress.request with
      | none => reject e .stage
      | some request =>
        e.settle.ask .registering (giveUp .retryExhausted) operationDue id
          fun op => .registerSubscriber op request

def sinkEpochBound (op : Operation) (checkpoint : FencedCheckpoint)
    (sourceToSink sinkToHead : BoundComparison) : Outcome :=
  if e.matchesOp op .bindingSink = false then reject e .staleOperation
  else
    match e.subscription with
    | none => reject e .stage
    | some progress =>
      match progress.registration with
      | none => reject e .stage
      | some registration =>
        match checkpoint.validateAgainst registration e.config.maxCursorBytes with
        | .error error => reject e (.subscription error)
        | .ok () =>
          if Comparison.reaches (sourceToSink.forOperands registration.guarded checkpoint.cursor
                registration.proof.id) = false ∨
              Comparison.reaches (sinkToHead.forOperands checkpoint.cursor registration.proof.head
                registration.proof.id) = false then reject e .comparison
          else
            let e := { e.settle with
              subscription := some { progress with sink := some checkpoint }
              checkpoint := some checkpoint.cursor
              materialized := some checkpoint.cursor
              stage := .guarded
              tailDue := e.now
              retryDue := none
              retries := 0 }
            e.maybeCommitSubscriberTerminal (done e [.armTimer e.now])

/-- No result when the operation is not one of these. -/
def failSubscription (op : Operation) : Option Outcome :=
  match e.failing op with
  | none => none
  | some stage =>
    let target : Option RetryTarget :=
      match stage with
      | .readingCurrentSubscriber => some .subscriptionCurrentRead
      | .registering | .readingRegistration => some .subscriptionReadback
      | .bindingSink => some .subscriptionBind
      | _ => none
    target.map fun target =>
      if e.subscription.isNone ∨ op.session ≠ e.sessionId ∨ op.generation ≠ e.generation then
        reject e .staleOperation
      else e.retryLater target

def retrySubscription : Outcome :=
  match e.retryTarget with
  | .subscriptionCurrentRead =>
    match e.subscription.bind fun progress =>
        progress.detachedKey.or (progress.resume.map ResumeSubscriber.key) with
    | none => reject e .stage
    | some key =>
      e.ask .readingCurrentSubscriber (giveUp .retryExhausted) operationDue
        (fun e =>
          match e.subscriberTerminalDue with
          | none => e
          | some due => e.clampOperation due)
        fun op => .readCurrentSubscriber op key
  | .subscriptionReadback =>
    match e.subscription.bind SubscriptionProgress.request with
    | none => reject e .stage
    | some request =>
      e.ask .readingRegistration (giveUp .retryExhausted) operationDue id
        fun op => .readSubscriberRegistration op request.key request.requestId
  | .subscriptionBind =>
    match e.subscription.bind SubscriptionProgress.registration with
    | none => reject e .stage
    | some receipt =>
      e.ask .bindingSink (giveUp .retryExhausted) operationDue id fun op =>
        .bindSinkEpoch op receipt
  | _ => reject e .stage

/-! ## Delivery -/

def pollSubscriber : Outcome :=
  if e.mode ≠ .eventComplete ∨ e.stage ≠ .guarded then reject e .stage
  else
    match e.subscription with
    | none => reject e .stage
    | some progress =>
      match progress.registration, progress.sourceAck, progress.sink with
      | some registration, some start, some _ =>
        e.ask .checkingSubscriberTail (giveUp .retryExhausted) operationDue id
          fun op => .checkSubscriberTail op registration start
      | _, _, _ => reject e .stage

def scanSubscriber (e : SessionEngine) : Outcome :=
  match e.subscription with
  | none => reject e .stage
  | some progress =>
    match progress.registration, progress.sourceAck with
    | some registration, some start =>
      e.ask .scanningSubscriber (giveUp .retryExhausted) operationDue id fun op =>
        .scanSubscriber op registration start e.config.maxBatchEvents e.config.maxBatchBytes
    | _, _ => reject e .stage

/-- What a cut has to be: how its retained suffix and the acknowledged cursor lie, and how
that cursor and the head do. -/
def acceptSubscriberTail (op : Operation) (proof : SourceProof)
    (comparisons : List BoundComparison) : Except Reject (Comparison × Comparison) :=
  if e.matchesOp op .checkingSubscriberTail = false then .error .staleOperation
  else
    match proof.validate e.scope e.config.maxCursorBytes with
    | .error error => .error (.identity error)
    | .ok () =>
      match e.subscription.bind SubscriptionProgress.sourceAck with
      | none => .error .stage
      | some start =>
        match allOf (relation comparisons proof.retainedFrom start proof)
            (relation comparisons start proof.head proof)
            (relation comparisons proof.retainedFrom proof.head proof) with
        | .error reason => .error reason
        | .ok (retainedToAck, ackToHead, retainedToHead) =>
          if retainedToAck ≠ .after ∧ (ackToHead = .after ∨ retainedToHead = .after) then
            .error .discontinuity
          else .ok (retainedToAck, ackToHead)

def subscriberTail (op : Operation) (proof : SourceProof) (comparisons : List BoundComparison) :
    Outcome :=
  match e.acceptSubscriberTail op proof comparisons with
  | .error reason => reject e reason
  | .ok (retainedToAck, ackToHead) =>
    if retainedToAck = .after then
      done { e.settle with stage := .irrecoverableGap } [.irrecoverableGap]
    else
      let e := { e.settle with head := some proof.head, proof := some proof }
      e.maybeCommitSubscriberTerminal
        (if ackToHead = .before then e.scanSubscriber
        else
          match checkedAdd u64Max e.now e.config.tailCheckMs with
          | none => giveUp .retryExhausted { e with retries := 0 }
          | some due =>
            done { e with retries := 0, tailDue := due, stage := .guarded } [.armTimer due])

/-- What a batch has to be.  The answer is what it is applied under. -/
def acceptSubscriberBatch (op : Operation) (batch : Batch) :
    Except Reject (RegisterReceipt × Cursor) :=
  if e.matchesOp op .scanningSubscriber = false then .error .staleOperation
  else
    match e.subscription with
    | none => .error .stage
    | some progress =>
      match progress.sourceAck, progress.registration, progress.sink, e.proof with
      | some start, some registration, some sink, some proof =>
        if batch.coverage.start ≠ start ∨ batch.coverage.proof ≠ proof.id ∨
            batch.coverage.certificate.isEmpty ∨
            e.config.maxCursorBytes < batch.coverage.certificate.length ∨
            batch.coverage.through.history ≠ registration.epoch.history then .error .discontinuity
        else
          match batch.coverage.through.validate e.scope e.config.maxCursorBytes with
          | .error error => .error (.identity error)
          | .ok () =>
            if e.config.maxBatchEvents < batch.events ∨ e.config.maxBatchBytes < batch.bytes then
              .error .backpressure
            else if batch.advance.forOperands start batch.coverage.through proof.id ≠
                  some .before ∨
                Comparison.reaches (batch.endToHead.forOperands batch.coverage.through proof.head
                  proof.id) = false then .error .discontinuity
            else .ok (registration, sink.cursor)
      | _, _, _, _ => .error .stage

def subscriberScanned (op : Operation) (batch : Batch) : Outcome :=
  match e.acceptSubscriberBatch op batch with
  | .error reason => reject e reason
  | .ok (registration, previousSink) =>
    e.ask .applyingSubscriber (giveUp .retryExhausted) operationDue
      (fun e => { e with pendingBatch := some batch })
      fun op => .applySubscriberBatch op registration batch previousSink

/-- What a durable delivery has to be.  The answer is the acknowledgement to ask for. -/
def acceptDelivery (op : Operation) (receipt : DurableDeliveryReceipt)
    (throughToSink previousToSink : BoundComparison) :
    Except Reject (SubscriptionProgress × FencedCheckpoint × CommitSubscriberAck) :=
  if e.matchesOp op .applyingSubscriber = false then .error .staleOperation
  else
    match e.pendingBatch, e.subscription with
    | some batch, some progress =>
      match progress.registration, progress.sink, progress.sourceAck, e.proof with
      | some registration, some sink, some start, some proof =>
        match receipt.validateAgainst op registration sink.cursor batch e.config.maxCursorBytes
            progress.limits with
        | .error error => .error (.subscription error)
        | .ok () =>
          let delivered :=
            throughToSink.forOperands batch.coverage.through receipt.sinkCursor proof.id
          let previous := previousToSink.forOperands sink.cursor receipt.sinkCursor proof.id
          if Comparison.reaches delivered = false ∨ Comparison.reaches previous = false ∨
              delivered ≠ some .equal ∧ previous ≠ some .equal then .error .comparison
          else .ok (progress, sink, ⟨registration.key, registration.epoch, start,
            batch.coverage.through, proof.id, receipt.ackRequestId⟩)
      | _, _, _, _ => .error .stage
    | _, _ => .error .stage

def subscriberApplied (op : Operation) (receipt : DurableDeliveryReceipt)
    (throughToSink previousToSink : BoundComparison) : Outcome :=
  match e.acceptDelivery op receipt throughToSink previousToSink with
  | .error reason => reject e reason
  | .ok (progress, sink, request) =>
    ask { e with
      subscription := some { progress with
        sink := some { sink with cursor := receipt.sinkCursor }
        pendingAck := some request }
      materialized := some receipt.sinkCursor
      checkpoint := some receipt.sinkCursor
      pendingBatch := none } .ackingSubscriber (giveUp .retryExhausted) operationDue id
      fun op => .commitSubscriberAck op request

def subscriberAcked (op : Operation) (receipt : SubscriberAckReceipt) (stage : Stage) :
    Outcome :=
  if e.matchesOp op stage = false then reject e .staleOperation
  else
    match e.subscription with
    | none => reject e .stage
    | some progress =>
      match progress.pendingAck with
      | none => reject e .stage
      | some request =>
        match receipt.validateAgainst request with
        | .error error => reject e (.subscription error)
        | .ok () =>
          let e := { e.settle with
            subscription := some { progress with
              sourceAck := some request.through
              pendingAck := none }
            retries := 0
            stage := .guarded }
          e.maybeCommitSubscriberTerminal e.pollSubscriber

def subscriberAckRead (op : Operation) (receipt : Option SubscriberAckReceipt) :
    Outcome :=
  if e.matchesOp op .readingSubscriberAck = false then reject e .staleOperation
  else
    match receipt with
    | some receipt => e.subscriberAcked op receipt .readingSubscriberAck
    | none =>
      match e.subscription.bind SubscriptionProgress.pendingAck with
      | none => reject e .stage
      | some request =>
        e.ask .ackingSubscriber (giveUp .retryExhausted) operationDue id
          fun op => .commitSubscriberAck op request

/-- No result when the operation is not one of these. -/
def failSubscriptionDelivery (op : Operation) : Option Outcome :=
  match e.failing op with
  | some .checkingSubscriberTail | some .scanningSubscriber | some .applyingSubscriber =>
    some (retryLater { e with pendingBatch := none } .subscriptionTail)
  | some .ackingSubscriber | some .readingSubscriberAck =>
    some (retryLater { e with pendingBatch := none } .subscriptionAckRead)
  | _ => none

def retrySubscriptionDelivery : Outcome :=
  match e.retryTarget with
  | .subscriptionTail =>
    let e := { e with stage := .guarded }
    e.maybeCommitSubscriberTerminal e.pollSubscriber
  | .subscriptionAckRead =>
    match e.subscription.bind SubscriptionProgress.pendingAck with
    | none => reject e .stage
    | some request =>
      e.ask .readingSubscriberAck (giveUp .retryExhausted) operationDue id
        fun op => .readSubscriberAck op request
  | _ => reject e .stage

end SessionEngine

end Groupnet.Replication
