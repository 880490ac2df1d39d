import Groupnet.Replication.Turn

/-!
# Phases of a session

A session waits for one operation, waits for a retry, or rests.  Two more phases are the
result of slips.  A stage can be given up while its operation is left behind: this happens
only when no token or no time for another operation is left, and nothing is ever asked for
again.  And a check of the tail can lose its operation.  `slack` allows for these two.

Each phase comes with the data its stage works on.  `Sound` is what a session keeps at every
event.
-/

namespace Groupnet.Replication

/-! ## Stages -/

def Stage.replays : Stage → Bool
  | .loadingCheckpoint | .installingCheckpoint | .checkingTail | .scanning | .applying => true
  | _ => false

/-- The stages of a snapshot attempt. -/
def Stage.recovers : Stage → Bool
  | .snapshotHolding | .snapshotOffering | .snapshotOpening | .snapshotReading | .snapshotWriting
  | .snapshotVerifying | .snapshotBarrier | .snapshotScanning | .snapshotApplying | .snapshotSealing
  | .snapshotInstalling | .snapshotAttaching => true
  | _ => false

def Stage.waits (stage : Stage) : Bool :=
  stage.replays || stage.recovers || SessionEngine.subscribing stage

/-- The stages whose operation can be left behind. -/
def Stage.lingers : Stage → Bool
  | .loadingCheckpoint | .scanning | .scanningSubscriber | .applyingSubscriber
  | .readingSubscriberAck => true
  | _ => false

/-- The stage at which such an operation is left behind. -/
def Stage.leftAt : Stage → Stage
  | .loadingCheckpoint | .scanning => .unready
  | _ => .retryExhausted

def RetryTarget.stage : RetryTarget → Stage
  | .tail => .checkingTail
  | .bootstrap => .loadingCheckpoint
  | .subscriptionCurrentRead => .readingCurrentSubscriber
  | .subscriptionReadback => .readingRegistration
  | .subscriptionBind => .bindingSink
  | .subscriptionTail => .checkingSubscriberTail
  | .subscriptionAckRead => .readingSubscriberAck
  | .subscriptionTerminalRead => .readingSubscriberTerminal

theorem RetryTarget.stage_recovers (target : RetryTarget) : target.stage.recovers = false := by
  cases target <;> rfl

/-- The stages at which nothing goes on and nothing is asked of the data. -/
def Stage.plain (stage : Stage) : Bool :=
  !stage.waits && stage ≠ .retryWait && stage ≠ .guarded && stage ≠ .ready

theorem Stage.ne_of_plain {stage : Stage} (h : stage.plain = true) :
    stage.waits = false ∧ stage ≠ .retryWait ∧ stage ≠ .guarded ∧ stage ≠ .ready := by
  simp only [plain, Bool.and_eq_true, Bool.not_eq_true', decide_eq_true_eq] at h
  exact ⟨h.1.1.1, h.1.1.2, h.1.2, h.2⟩

theorem Stage.recovers_of_waits {stage : Stage} (h : stage.waits = false) :
    stage.recovers = false := by
  cases stage <;> first | rfl | cases h

/-! ## Data -/

/-- What a stage works on. -/
structure Data where
  scope : Scope
  config : Config
  protocol : SessionProtocol
  snapshot : Option SnapshotProgress
  subscription : Option SubscriptionProgress
  pendingBatch : Option Batch

def Stage.follows (stage : Stage) : Bool := SessionEngine.subscribing stage || stage = .guarded

theorem Stage.kind_of_replays {stage : Stage} (h : stage.replays = true) :
    stage.recovers = false ∧ stage.follows = false := by
  cases stage <;> first | exact ⟨rfl, rfl⟩ | cases h

theorem Stage.kind_of_recovers {stage : Stage} (h : stage.recovers = true) :
    stage.replays = false ∧ stage.follows = false ∧ stage.waits = true := by
  cases stage <;> first | exact ⟨rfl, rfl, rfl⟩ | cases h

theorem Stage.kind_of_follows {stage : Stage} (h : stage.follows = true) :
    stage.replays = false ∧ stage.recovers = false := by
  cases stage <;> first | exact ⟨rfl, rfl⟩ | cases h

/-- What a subscription has got so far.  A subscription for which nothing can be asked any
more may still hold an acknowledgement. -/
def Needs (loose : Prop) (p : SubscriptionProgress) : Stage → Prop
  | .readingCurrentSubscriber =>
    p.pendingAck = none ∧ p.registration = none ∧
      (p.detachedKey.isSome = true ∧ p.terminal.isSome = true ∨
        p.detachedKey = none ∧ p.resume.isSome = true)
  | .registering | .readingRegistration => p.pendingAck = none ∧ p.request.isSome = true
  | .bindingSink => p.pendingAck = none ∧ p.registration.isSome = true ∧ p.sourceAck.isSome = true
  | .guarded | .checkingSubscriberTail | .scanningSubscriber | .applyingSubscriber =>
    (loose ∨ p.pendingAck = none) ∧ p.registration.isSome = true ∧ p.sourceAck.isSome = true ∧
      p.sink.isSome = true
  | .ackingSubscriber | .readingSubscriberAck =>
    p.pendingAck.isSome = true ∧ p.registration.isSome = true ∧ p.sourceAck.isSome = true ∧
      p.sink.isSome = true
  | .terminatingSubscriber | .readingSubscriberTerminal =>
    p.pendingAck = none ∧ ∃ terminal, p.terminal = some terminal ∧ terminal.request.isSome = true
  | _ => True

structure Fit (d : Data) (loose : Prop) (stage : Stage) : Prop where
  replay : stage.replays = true → d.protocol = .replay
  attached : stage.recovers = false → ∀ p, d.snapshot = some p → p.attached = true
  recovers : stage.recovers = true → ∃ p, d.snapshot = some p ∧ p.attached = false
  needs : stage.follows = true → ∃ p, d.subscription = some p ∧ Needs loose p stage
  delivering : stage = .applyingSubscriber → loose ∧ d.pendingBatch = none ∨
    ∃ batch p, d.pendingBatch = some batch ∧ d.subscription = some p ∧
      (∀ registration, p.registration = some registration →
        batch.coverage.through.history = registration.epoch.history) ∧
      batch.coverage.through.validate d.scope d.config.maxCursorBytes = .ok ()

def SubscriberKey.Fits (key : SubscriberKey) (limits : SubscriptionLimits) : Prop :=
  key.name.isEmpty = false ∧ key.name.utf8ByteSize ≤ limits.maxSubscriberBytes

/-- What changes only with the kind of work. -/
structure Frame where
  scope : Scope
  config : Config
  mode : Mode
  protocol : SessionProtocol
  snapshot : Option SnapshotProgress
  subscription : Option SubscriptionProgress

structure Kept (scope : Scope) (config : Config) (p : SubscriptionProgress) : Prop where
  limits : p.limits.validate = .ok ()
  request : ∀ request, p.request = some request → request.key.scope = scope
  resume : ∀ resume, p.resume = some resume → resume.key.scope = scope
  detached : ∀ key, p.detachedKey = some key → key.scope = scope
  registration : ∀ registration, p.registration = some registration →
    registration.key.scope = scope ∧ registration.key.Fits p.limits ∧
    registration.epoch.native.isEmpty = false ∧
      registration.epoch.native.length ≤ p.limits.maxEpochBytes
  acked : ∀ registration start, p.registration = some registration → p.sourceAck = some start →
    start.history = registration.epoch.history ∧ start.validate scope config.maxCursorBytes = .ok ()
  pending : ∀ request, p.pendingAck = some request → ∃ registration,
    p.registration = some registration ∧
    request.key = registration.key ∧ request.epoch = registration.epoch ∧
    p.sourceAck = some request.previous ∧ request.through.history = registration.epoch.history ∧
    request.through.validate scope config.maxCursorBytes = .ok ()
  terminal : ∀ terminal, p.terminal = some terminal →
    (terminal.requestId.isEmpty = false ∧ terminal.requestId.length ≤ p.limits.maxRequestBytes) ∧
    ∀ request, terminal.request = some request →
      request.validate config.maxCursorBytes p.limits = .ok ()

/-- What holds at every stage. -/
structure Steady (f : Frame) : Prop where
  scope : f.scope.validate f.config.maxCursorBytes = .ok ()
  named : f.protocol = .namedSubscription → f.mode = .eventComplete
  subscribed : f.subscription.isSome = true → f.protocol = .namedSubscription
  staged : f.snapshot.isSome = true → f.mode = .stateSync ∧ f.config.snapshot.isSome = true
  kept : ∀ p, f.subscription = some p → Kept f.scope f.config p

theorem Steady.dropped {f : Frame} (h : Steady f) : Steady { f with snapshot := none } :=
  ⟨h.scope, h.named, h.subscribed, nofun, h.kept⟩

theorem Steady.noted {f : Frame} (h : Steady f) (hs : f.snapshot.isSome = true)
    (p : SnapshotProgress) :
    Steady { f with snapshot := some p } :=
  ⟨h.scope, h.named, h.subscribed, fun _ => h.staged hs, h.kept⟩

/-- A session between two kinds of work. -/
theorem Steady.ended {f : Frame} (h : Steady f) :
    Steady { f with snapshot := none, subscription := none } :=
  ⟨h.scope, h.named, (fun hs => nomatch hs), (fun hs => nomatch hs), (fun _ hp => nomatch hp)⟩

theorem Steady.replay {f : Frame} (h : Steady f) (hs : f.snapshot.isSome = true) :
    f.protocol = .replay := by
  cases hp : f.protocol with
  | replay => rfl
  | namedSubscription => cases (h.named hp).symm.trans (h.staged hs).1

/-! ## Phases -/

structure Control where
  stage : Stage
  outstanding : Option (Operation × Stage)
  /-- The operation has a deadline. -/
  timed : Bool
  /-- A retry has an instant. -/
  delayed : Bool
  ready : Bool
  target : RetryTarget
  session : Nat
  generation : Nat
  /-- No operation can be asked for any more. -/
  broke : Bool
  cleanup : Option Operation

inductive Phase (slack : Prop) (c : Control) (d : Data) : Prop
  | waiting (op : Operation) (hout : c.outstanding = some (op, c.stage))
      (hwaits : c.stage.waits = true)
      (htimed : c.timed = true) (hdelayed : c.delayed = false) (hready : c.ready = false)
      (hsession : op.session = c.session) (hgeneration : op.generation = c.generation)
      (hfit : Fit d False c.stage) (hapart : c.cleanup ≠ some op)
  | delayed (hout : c.outstanding = none) (hstage : c.stage = .retryWait) (htimed : c.timed = false)
      (hdelayed : c.delayed = true) (hready : c.ready = false) (hsnapshot : d.snapshot = none)
      (hfit : Fit d (c.broke = true) c.target.stage)
  | resting (hout : c.outstanding = none) (hwaits : c.stage.waits = false)
      (hstage : c.stage ≠ .retryWait) (htimed : c.timed = false) (hdelayed : c.delayed = false)
      (hready : c.ready = true → c.stage = .ready ∧ d.snapshot = none)
      (hfit : Fit d (c.broke = true) c.stage) (hreplay : c.stage = .ready → d.protocol = .replay)
  | leftover (hslack : slack) (op : Operation) (stage : Stage)
      (hout : c.outstanding = some (op, stage))
      (hlingers : stage.lingers = true) (hstage : c.stage = stage.leftAt) (htimed : c.timed = true)
      (hdelayed : c.delayed = false) (hready : c.ready = false) (hsession : op.session = c.session)
      (hgeneration : op.generation = c.generation) (hbroke : c.broke = true)
      (hfit : Fit d True stage)
  | stranded (hslack : slack) (hout : c.outstanding = none) (hstage : c.stage = .checkingTail)
      (htimed : c.timed = false) (hdelayed : c.delayed = false) (hready : c.ready = false)
      (hfit : Fit d False .checkingTail)

namespace SessionEngine

def data (e : SessionEngine) : Data :=
  ⟨e.scope, e.config, e.protocol, e.snapshot, e.subscription, e.pendingBatch⟩

def frame (e : SessionEngine) : Frame :=
  ⟨e.scope, e.config, e.mode, e.protocol, e.snapshot, e.subscription⟩

def broke (e : SessionEngine) : Bool := e.nextToken = 0 ∨ u64Max < e.now + e.config.attemptTimeoutMs

def control (e : SessionEngine) : Control :=
  ⟨e.stage, e.outstanding, e.operationDue.isSome, e.retryDue.isSome, e.ready, e.retryTarget,
    e.sessionId, e.generation, e.broke, e.snapshotCleanup.map CleanupState.op⟩

/-- What a session keeps at every event. -/
def Sound (slack : Prop) (e : SessionEngine) : Prop := Phase slack e.control e.data ∧ Steady e.frame

variable {slack : Prop} {e : SessionEngine} {op : Operation} {stage : Stage}

theorem broke_eq_false_iff : e.broke = false ↔ e.Funded := by
  unfold broke
  rw [decide_eq_false_iff_not, not_or]
  exact ⟨fun h => ⟨h.1, Nat.le_of_not_lt h.2⟩, fun h => ⟨h.token, Nat.not_lt.mpr h.time⟩⟩

theorem broke_iff : e.broke = true ↔ ¬ e.Funded := by
  rw [← broke_eq_false_iff, Bool.not_eq_false]

/-- A matching completion is for the operation under way. -/
theorem outstanding_of_matchesOp (h : ¬ e.matchesOp op stage = false) :
    e.outstanding = some (op, stage) := by
  unfold matchesOp at h
  simp only [Bool.not_eq_false, Bool.and_eq_true, decide_eq_true_eq] at h
  exact h.1.1.1

/-- What is known at a completion.  The stage waits for it, or it was left behind. -/
structure Answered (slack : Prop) (e : SessionEngine) (op : Operation) (stage : Stage) : Prop where
  out : e.outstanding = some (op, stage)
  timed : e.operationDue.isSome = true
  mine : op.session = e.sessionId ∧ op.generation = e.generation
  undelayed : e.retryDue = none
  shut : e.ready = false
  fit : Fit e.data (stage.lingers = true ∧ e.broke = true) stage
  here : e.stage = stage ∧ stage.waits = true ∧ Fit e.data False stage ∧
    e.base.cleanupOp ≠ some op ∨
    slack ∧ e.broke = true ∧ stage.lingers = true ∧ e.stage = stage.leftAt
  steady : Steady e.frame

end SessionEngine

theorem Needs.mono {loose loose' : Prop} {p : SubscriptionProgress} {stage : Stage}
    (h : Needs loose p stage) (hl : loose → loose') : Needs loose' p stage := by
  cases stage
  case guarded => exact ⟨h.1.imp_left hl, h.2⟩
  case checkingSubscriberTail => exact ⟨h.1.imp_left hl, h.2⟩
  case scanningSubscriber => exact ⟨h.1.imp_left hl, h.2⟩
  case applyingSubscriber => exact ⟨h.1.imp_left hl, h.2⟩
  all_goals exact h

theorem Fit.mono {d : Data} {loose loose' : Prop} {stage : Stage} (h : Fit d loose stage)
    (hl : loose → loose') :
    Fit d loose' stage where
  __ := h
  needs hs := (h.needs hs).imp fun _ hp => ⟨hp.1, hp.2.mono hl⟩
  delivering hs := (h.delivering hs).imp_left (.imp_left hl)

/-- A stage without an operation of its own asks only for the snapshot to be attached. -/
theorem Fit.of_attached {d : Data} {loose : Prop} {stage : Stage}
    (h : ∀ p, d.snapshot = some p → p.attached = true) (hs : stage.waits = false)
    (hg : stage ≠ .guarded) :
    Fit d loose stage := by
  have hparts : stage.replays = false ∧ stage.recovers = false ∧
      SessionEngine.subscribing stage = false := by
    simpa [Stage.waits, Bool.or_eq_false_iff, and_assoc] using hs
  refine ⟨?_, fun _ => h, ?_, ?_, ?_⟩
  · rw [hparts.1]
    nofun
  · rw [hparts.2.1]
    nofun
  · simp [Stage.follows, hparts.2.2, hg]
  · rintro rfl
    cases hparts.2.2

/-- Another subscription that fits where the old one did, the cleanup over, and at most less can
be asked for. -/
theorem Phase.map {slack : Prop} {c : Control} {d : Data} {b : Bool}
    {q : Option SubscriptionProgress} {k : Option Operation} (h : Phase slack c d)
    (hfit : ∀ {loose stage}, Fit d loose stage → Fit { d with subscription := q } loose stage)
    (hb : c.broke = true → b = true) (hk : ∀ op, k = some op → c.cleanup = some op) :
    Phase slack { c with broke := b, cleanup := k } { d with subscription := q } := by
  cases h with
  | waiting op hout hwaits htimed hdelayed hready hsession hgeneration hf hapart =>
    exact .waiting op hout hwaits htimed hdelayed hready hsession hgeneration (hfit hf)
      fun h => hapart (hk _ h)
  | delayed hout hstage htimed hdelayed hready hsnapshot hf =>
    exact .delayed hout hstage htimed hdelayed hready hsnapshot ((hfit hf).mono hb)
  | resting hout hwaits hstage htimed hdelayed hready hf hreplay =>
    exact .resting hout hwaits hstage htimed hdelayed hready ((hfit hf).mono hb) hreplay
  | leftover hslack op stage hout hlingers hstage htimed hdelayed hready hsession hgeneration
      hbroke hf =>
    exact .leftover hslack op stage hout hlingers hstage htimed hdelayed hready hsession hgeneration
      (hb hbroke) (hfit hf)
  | stranded hslack hout hstage htimed hdelayed hready hf =>
    exact .stranded hslack hout hstage htimed hdelayed hready (hfit hf)

namespace SessionEngine

variable {slack : Prop} {e : SessionEngine} {op : Operation} {stage : Stage}

theorem eq_none_of_isSome {α : Type} {o : Option α} (h : o.isSome = false) : o = none :=
  Option.isNone_iff_eq_none.mp (Option.isSome_eq_false_iff.mp h)

theorem Sound.answered (h : Sound slack e) (hout : e.outstanding = some (op, stage)) :
    Answered slack e op stage := by
  obtain ⟨hphase, hsteady⟩ := h
  cases hphase with
  | waiting op' hout' hwaits htimed hdelayed hready hsession hgeneration hfit hapart =>
    cases hout.symm.trans hout'
    exact ⟨hout, htimed, ⟨hsession, hgeneration⟩, eq_none_of_isSome hdelayed, hready,
      hfit.mono False.elim, .inl ⟨rfl, hwaits, hfit, hapart⟩, hsteady⟩
  | leftover hslack op' stage' hout' hlingers hstage htimed hdelayed hready hsession hgeneration
      hbroke hfit =>
    cases hout.symm.trans hout'
    exact ⟨hout, htimed, ⟨hsession, hgeneration⟩, eq_none_of_isSome hdelayed, hready,
      hfit.mono fun _ => ⟨hlingers, hbroke⟩, .inr ⟨hslack, hbroke, hlingers, hstage⟩, hsteady⟩
  | delayed hout' => cases hout.symm.trans hout'
  | resting hout' => cases hout.symm.trans hout'
  | stranded _ hout' => cases hout.symm.trans hout'

end SessionEngine

end Groupnet.Replication
