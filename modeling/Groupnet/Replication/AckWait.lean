import Groupnet.Replication.Policy

/-!
# Waiting for named acknowledgements

A session can wait until every member of a fixed roster has acknowledged one target.  It
polls the source for evidence, each time under an operation of its own, and gives up at the
request's deadline.  The wait knows nothing of the replay beside it.
-/

namespace Groupnet.Replication

inductive AckKind where
  | invalidated
  | materialized
deriving DecidableEq

inductive AckTarget where
  | intent (scope : Scope) (history : SourceHistory) (id : List UInt8)
  | cursor (cursor : Cursor)
deriving DecidableEq

def AckTarget.scope : AckTarget → Scope
  | .intent scope _ _ => scope
  | .cursor c => c.scope

def AckTarget.history : AckTarget → SourceHistory
  | .intent _ history _ => history
  | .cursor c => c.history

/-- A subscriber and the registration it must acknowledge under. -/
structure RequiredSubscriber where
  name : String
  incarnation : Nat
  epoch : List UInt8
deriving DecidableEq

structure CertifiedRoster where
  target : AckTarget
  kind : AckKind
  policyVersion : Nat
  certificate : List UInt8
  required : List RequiredSubscriber
deriving DecidableEq

structure AckWaitRequest where
  requestId : List UInt8
  target : AckTarget
  kind : AckKind
  roster : CertifiedRoster
  due : Time
deriving DecidableEq

structure AckEvidence where
  op : Operation
  requestId : List UInt8
  target : AckTarget
  kind : AckKind
  rosterCertificate : List UInt8
  subscriber : RequiredSubscriber
deriving DecidableEq

structure AckWaitLimits where
  maxRequired : ℕ+
  maxIdentityBytes : ℕ+
  maxCertificateBytes : ℕ+
  maxMetadataBytes : ℕ+
  maxWaitMs : Nat
  pollMs : Nat
deriving DecidableEq

inductive AckWaitLimitsError where
  | zeroMaxWait
  | zeroPoll
  | pollExceedsMaxWait
  | identityExceedsMetadata
  | certificateExceedsMetadata
deriving DecidableEq

def AckWaitLimits.validate (limits : AckWaitLimits) : Except AckWaitLimitsError Unit :=
  if limits.maxWaitMs = 0 then .error .zeroMaxWait
  else if limits.pollMs = 0 then .error .zeroPoll
  else if limits.maxWaitMs < limits.pollMs then .error .pollExceedsMaxWait
  else if limits.maxMetadataBytes < limits.maxIdentityBytes then .error .identityExceedsMetadata
  else if limits.maxMetadataBytes < limits.maxCertificateBytes then
    .error .certificateExceedsMetadata
  else .ok ()

inductive AckWaitOutcome where
  | satisfied
  | pending (waiting : List RequiredSubscriber)
  | timedOut (waiting : List RequiredSubscriber)
  | cancelled
  | authorityLost
deriving DecidableEq

inductive AckWaitError where
  | limits (error : AckWaitLimitsError)
  | identity
  | backpressure
  | deadline
  | roster
  | evidence
  | duplicate
  | closed
deriving DecidableEq

structure AckWait where
  op : Operation
  request : AckWaitRequest
  /-- Which members acknowledged. -/
  observed : List Bool
  terminal : Option AckWaitOutcome
  pollMs : Nat
  nextPollDue : Time
  pollOp : Option Operation
  pollDue : Option Time

def validateTarget (target : AckTarget) (scope : Scope) (limit : Nat) : Except AckWaitError Unit :=
  match scope.validate limit with
  | .error _ => .error .identity
  | .ok () =>
    match target with
    | .intent targetScope history id =>
      if targetScope ≠ scope ∨ history.source.isEmpty ∨ limit < history.source.utf8ByteSize ∨
          id.isEmpty ∨ limit < id.length then .error .identity
      else .ok ()
    | .cursor cursor => (cursor.validate scope limit).mapError fun _ => .identity

def targetBytes (target : AckTarget) : Option Nat :=
  (target.scope.names.map String.utf8ByteSize ++ [target.history.source.utf8ByteSize,
    match target with
    | .intent _ _ id => id.length
    | .cursor cursor => cursor.position.length]).foldlM (checkedAdd u64Max) 0

/-- Checks the members of a roster one by one, adding up their bytes.  `seen` are the
members before. -/
def rosterBytes (maxIdentityBytes : Nat) (seen : List RequiredSubscriber) :
    List RequiredSubscriber → Nat → Except AckWaitError Nat
  | [], total => .ok total
  | member :: rest, total =>
    if member.name.isEmpty ∨ member.epoch.isEmpty ∨ member.incarnation = 0 then .error .identity
    else if maxIdentityBytes < member.name.utf8ByteSize ∨
        maxIdentityBytes < member.epoch.length then
      .error .backpressure
    else if seen.any fun prior => prior.name = member.name then .error .roster
    else
      match (checkedAdd u64Max total member.name.utf8ByteSize).bind
          (checkedAdd u64Max · member.epoch.length) with
      | none => .error .backpressure
      | some total => rosterBytes maxIdentityBytes (seen ++ [member]) rest total

def AckKind.fits : AckKind → AckTarget → Bool
  | .invalidated, .intent .. | .materialized, .cursor _ => true
  | _, _ => false

namespace AckWait

def new (scope : Scope) (op : Operation) (request : AckWaitRequest) (limits : AckWaitLimits)
    (now : Time) : Except AckWaitError AckWait :=
  if op.session = 0 ∨ op.generation = 0 ∨ op.token = 0 then .error .identity
  else
    match limits.validate with
    | .error error => .error (.limits error)
    | .ok () =>
      if request.due ≤ now ∨ limits.maxWaitMs < request.due - now then .error .deadline
      else
        match validateTarget request.target scope limits.maxIdentityBytes with
        | .error error => .error error
        | .ok () =>
          if request.roster.target ≠ request.target ∨ request.roster.kind ≠ request.kind ∨
              request.roster.policyVersion = 0 then .error .roster
          else if request.kind.fits request.target = false then .error .roster
          else if limits.maxRequired < request.roster.required.length then .error .backpressure
          else if request.requestId.isEmpty ∨ limits.maxIdentityBytes < request.requestId.length ∨
              request.roster.certificate.isEmpty ∨
              limits.maxCertificateBytes < request.roster.certificate.length then .error .identity
          else
            let charged := do
              let n ← checkedAdd u64Max request.requestId.length request.roster.certificate.length
              let n ← checkedAdd u64Max n (← targetBytes request.target)
              checkedAdd u64Max n (← targetBytes request.roster.target)
            match charged with
            | none => .error .backpressure
            | some total =>
              match rosterBytes limits.maxIdentityBytes [] request.roster.required total with
              | .error error => .error error
              | .ok total =>
                if limits.maxMetadataBytes < total then .error .backpressure
                else .ok {
                  op := op
                  request := request
                  observed := request.roster.required.map fun _ => false
                  terminal := if request.roster.required.isEmpty then some .satisfied else none
                  pollMs := limits.pollMs
                  nextPollDue := now
                  pollOp := none
                  pollDue := none }

variable (wait : AckWait)

def isTerminal : Bool := wait.terminal.isSome

def nextDeadline : Time := min (wait.pollDue.getD wait.nextPollDue) wait.request.due

/-- Starts a poll, and whether it could. -/
def poll (op : Operation) (now attemptDue : Time) : AckWait × Bool :=
  if wait.isTerminal ∨ wait.pollOp.isSome ∨ now < wait.nextPollDue then (wait, false)
  else ({ wait with pollOp := some op, pollDue := some (min attemptDue wait.request.due) }, true)

def endPoll (nextPollDue : Time) : AckWait :=
  { wait with pollOp := none, pollDue := none, nextPollDue := nextPollDue }

def expirePoll (now : Time) : AckWait :=
  if wait.pollDue.any (· ≤ now) then wait.endPoll now else wait

/-- The members still missing. -/
def waiting : List RequiredSubscriber :=
  ((wait.request.roster.required.zip wait.observed).filter fun p => !p.2).map Prod.fst

def tick (now : Time) : AckWait :=
  if wait.isTerminal = false ∧ wait.request.due ≤ now then
    { wait with terminal := some (.timedOut wait.waiting) }
  else wait

def finishWith (outcome : AckWaitOutcome) : AckWait :=
  if wait.isTerminal then wait else { wait with terminal := some outcome }

def cancel : AckWait := wait.finishWith .cancelled

def authorityLost (wait : AckWait) : AckWait := wait.finishWith .authorityLost

def status : AckWaitOutcome := wait.terminal.getD (.pending wait.waiting)

/-- A poll that found nothing. -/
def checked (op : Operation) (now : Time) : AckWait × Option AckWaitError :=
  let wait := wait.tick now
  if wait.isTerminal then (wait, some .closed)
  else if wait.pollOp ≠ some op ∨ wait.pollDue.any (· ≤ now) then (wait, some .evidence)
  else (wait.endPoll (min (satAdd now wait.pollMs) wait.request.due), none)

/-- Evidence of one member.  The outer option is a panic: the member's index is looked up
in the list of those observed. -/
def observe (evidence : AckEvidence) (now : Time) :
    Option (AckWait × Option AckWaitError) :=
  let wait := wait.tick now
  if wait.isTerminal then some (wait, some .closed)
  else if wait.pollOp ≠ some evidence.op ∨ wait.pollDue.any (· ≤ now) ∨
      evidence.requestId ≠ wait.request.requestId ∨ evidence.target ≠ wait.request.target ∨
      evidence.kind ≠ wait.request.kind ∨
      evidence.rosterCertificate ≠ wait.request.roster.certificate then some (wait, some .evidence)
  else
    match wait.request.roster.required.findIdx? (· = evidence.subscriber) with
    | none => some (wait, some .evidence)
    | some index => do
      let accepted ← wait.observed[index]?
      if accepted then some (wait, some .duplicate)
      else
        let wait := { wait with observed := wait.observed.set index true }.endPoll now
        some (if wait.observed.all id then { wait with terminal := some .satisfied }
          else wait, none)

end AckWait

end Groupnet.Replication
