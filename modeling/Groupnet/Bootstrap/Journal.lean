import Groupnet.Bootstrap.Identity
import Groupnet.Lib.Call
import Groupnet.Lib.Checked

/-!
# The donor's journal

A donor that captured an index image records every later change of the index as a delta, at the
next position of a journal.  A follower reserves the capture, attaches to the donor's stream,
takes a barrier and reads the deltas up to it in batches.  A batch that was returned and not yet
acknowledged is charged to the journal.  A follower whose time is up, and every follower of an
invalidated journal, is kept as aborted with its charge until the runtime has retired it.

A call first advances the journal's clock, which may expire the capture or some followers.  A
failed call leaves what it changed before it failed.

How many slots a vector occupies is an input, and so is every answer of the allocator.
-/

namespace Groupnet.Bootstrap

/-! ## Identities and positions -/

/-- A capture of one donor session. -/
structure CaptureId where
  scope : BootstrapScope
  donor : ClaimIdentity
  recoveryGeneration : Nat
  serial : Nat
deriving DecidableEq

/-- A position in the feed of a native writer. -/
structure NativeCut where
  writer : List UInt8
  epoch : Nat
  /-- The last covered sequence, zero for an empty feed. -/
  sequence : Nat
deriving DecidableEq

/-- A writer's sealed position and the epoch it continues in. -/
structure NativeRenewal where
  sealed : NativeCut
  epoch : Nat

structure ImageSize where
  encodedBytes : ℕ+
  decodedBytes : ℕ+

/-- What a capture is admitted with.  The slots are what the vectors occupy. -/
structure CapturePlan where
  image : ImageSize
  members : List BootstrapMemberIdentity
  cuts : List NativeCut
  memberSlots : Nat
  cutSlots : Nat
  writerSlots : List Nat

/-- What a delta does, so that the same effect is recognised. -/
inductive DeltaIdentity where
  | native (cut : NativeCut)
  | local (id : List UInt8)
deriving DecidableEq

def DeltaIdentity.size : DeltaIdentity → Nat
  | .native cut => cut.writer.length
  | .local id => id.length

/-- The number of deltas up to here, in one capture. -/
structure JournalCursor where
  capture : CaptureId
  position : Nat
deriving DecidableEq

structure ReservationId where
  capture : CaptureId
  follower : ClaimIdentity
  serial : Nat
deriving DecidableEq

structure AttachToken where
  reservation : ReservationId
  operation : Nat
deriving DecidableEq

/-- A barrier with the cuts and members of its instant. -/
structure BarrierReceipt where
  reservation : ReservationId
  attachOperation : Nat
  barrierOperation : Nat
  cursor : JournalCursor
  coveredCuts : List NativeCut
  members : List BootstrapMemberIdentity
deriving DecidableEq

/-- One effect on the index. -/
structure JournalDelta where
  position : Nat
  identity : DeltaIdentity
  effect : List UInt8
deriving DecidableEq

def JournalDelta.bytes (delta : JournalDelta) : Nat := delta.identity.size + delta.effect.length

/-- The deltas after `from'` through `through`. -/
structure JournalBatch where
  reservation : ReservationId
  operation : Nat
  from' : JournalCursor
  through : JournalCursor
  deltas : List JournalDelta
  bytes : ℕ+
deriving DecidableEq

inductive JournalState where
  | uncaptured
  | capturing
  | active
  | invalidated
deriving DecidableEq

/-- Why a capture cannot be transferred any more. -/
inductive Invalidation where
  | gap
  | lapse
  | rebuild
  | membership
  | donorLost
  | capacity
  | conflict
  | expired
deriving DecidableEq

inductive JournalConfigError where
  | zeroMaxTotal
  | zeroMaxFollower
  | followerExceedsTotal
  | eventExceedsSuffix
  | eventExceedsBatch
  | batchExceedsInflight
  | identityExceedsEvent
  | storageBoundOverflow
deriving DecidableEq

inductive JournalError where
  | config (error : JournalConfigError)
  | invalidIdentity
  | stage
  | stale
  | capacity
  | conflict
  | backwardTime
  | exhausted
  | expired
deriving DecidableEq

inductive ReservationStage where
  | reserved
  | attaching
  | attached
deriving DecidableEq

structure CaptureCharge where
  image : ImageSize
  suffixBytes : ℕ+
  started : Time

/-! ## Limits -/

structure JournalConfig where
  maxEncodedBytes : ℕ+
  maxDecodedBytes : ℕ+
  maxEvents : ℕ+
  maxSuffixBytes : ℕ+
  maxEventBytes : ℕ+
  maxIdentityBytes : ℕ+
  maxFollowers : ℕ+
  maxFollowerIdBytes : ℕ+
  maxCuts : ℕ+
  maxCutBytes : ℕ+
  maxMembers : ℕ+
  maxMembershipBytes : ℕ+
  maxScopeBytes : ℕ+
  maxBatchEvents : ℕ+
  maxBatchBytes : ℕ+
  maxInflightBytes : ℕ+
  /-- How long a capture lives. -/
  maxTotalMs : Nat
  /-- How long a reservation lives. -/
  maxFollowerMs : Nat

/-- The sizes of the journal's records in memory. -/
structure Layout where
  journal : Nat
  delta : Nat
  member : Nat
  cut : Nat
  follower : Nat
  aborted : Nat
  barrier : Nat

/-- The allocator's answers within one call: the slots it gives to the `k`th request for `n`,
or none. -/
abbrev Allocator := Nat → Nat → Option Nat

/-- The slots a vector may grow to. -/
def storageSlots (count : Nat) : Option Nat := (checkedMul usizeMax count 2).map (max 4)

def slotBytes (count size : Nat) : Option Nat := do
  checkedMul usizeMax (← storageSlots count) size

/-- The sum of sizes, when it is a size. -/
def checkedSum (parts : List (Option Nat)) : Option Nat :=
  parts.foldlM (fun total part => part.bind (checkedAdd usizeMax total)) 0

namespace JournalConfig

def perFollower (config : JournalConfig) (layout : Layout) : Option Nat :=
  checkedSum [slotBytes 1 layout.follower, slotBytes 1 layout.aborted, some layout.barrier,
    slotBytes config.maxMembers layout.member, some config.maxMembershipBytes,
    slotBytes config.maxCuts layout.cut, some config.maxCutBytes,
    checkedMul usizeMax config.maxCuts config.maxCutBytes,
    checkedMul usizeMax config.maxScopeBytes 8,
    checkedMul usizeMax config.maxFollowerIdBytes 8]

/-- What one journal may retain, when that is a size. -/
def checkedStorageBound (config : JournalConfig) (layout : Layout) : Option ℕ+ := do
  let total ← checkedSum [some layout.journal, slotBytes config.maxEvents layout.delta,
    some config.maxSuffixBytes,
    checkedMul usizeMax config.maxEvents config.maxEventBytes,
    checkedMul usizeMax config.maxEvents config.maxIdentityBytes,
    slotBytes config.maxMembers layout.member, some config.maxMembershipBytes,
    slotBytes config.maxCuts layout.cut, some config.maxCutBytes,
    checkedMul usizeMax config.maxCuts config.maxCutBytes,
    slotBytes config.maxCuts layout.cut,
    checkedMul usizeMax config.maxCuts config.maxCutBytes,
    some config.maxScopeBytes, some config.maxFollowerIdBytes,
    (config.perFollower layout).bind (checkedMul usizeMax config.maxFollowers)]
  if h : 0 < total then some ⟨total, h⟩ else none

/-- Checks the limits against each other and names the first that fails. -/
def validate (config : JournalConfig) (layout : Layout) : Except JournalConfigError Unit :=
  if config.maxTotalMs = 0 then .error .zeroMaxTotal
  else if config.maxFollowerMs = 0 then .error .zeroMaxFollower
  else if config.maxTotalMs < config.maxFollowerMs then .error .followerExceedsTotal
  else if config.maxSuffixBytes < config.maxEventBytes then .error .eventExceedsSuffix
  else if config.maxBatchBytes < config.maxEventBytes then .error .eventExceedsBatch
  else if config.maxInflightBytes < config.maxBatchBytes then .error .batchExceedsInflight
  else if config.maxEventBytes < config.maxIdentityBytes then .error .identityExceedsEvent
  else if (config.checkedStorageBound layout).isNone then .error .storageBoundOverflow
  else .ok ()

end JournalConfig

/-! ## The journal -/

/-- A batch that was returned and not acknowledged. -/
structure OutstandingBatch where
  operation : Nat
  through : Nat
  bytes : ℕ+
deriving DecidableEq

structure Follower where
  id : ReservationId
  due : Time
  stage : ReservationStage
  attachOperation : Option Nat
  barrier : Option BarrierReceipt
  /-- The last acknowledged position. -/
  acked : Nat
  /-- The operation and position of the last acknowledged batch. -/
  lastAcked : Option (Nat × Nat)
  outstanding : Option OutstandingBatch
deriving DecidableEq

/-- A follower whose resources the runtime has yet to retire. -/
structure AbortedFollower where
  id : ReservationId
  outstanding : Option OutstandingBatch
  notified : Bool
deriving DecidableEq

def Follower.abort (follower : Follower) : AbortedFollower :=
  ⟨follower.id, follower.outstanding, false⟩

structure DonorJournal where
  config : JournalConfig
  id : CaptureId
  state : JournalState
  reason : Option Invalidation
  now : Time
  captureStarted : Option Time
  expires : Option Time
  reservedEncoded : Nat
  reservedDecoded : Nat
  charge : Option CaptureCharge
  members : List BootstrapMemberIdentity
  imageCuts : List NativeCut
  cuts : List NativeCut
  deltas : List JournalDelta
  lastPosition : Nat
  suffixBytes : Nat
  inflightBytes : Nat
  followers : List Follower
  aborted : List AbortedFollower
  nextReservation : Nat
  nextOperation : Nat

def batchBytes : Option OutstandingBatch → Nat
  | none => 0
  | some batch => batch.bytes

namespace DonorJournal

/-- The capture names a scope, a donor and two serials. -/
def validId (config : JournalConfig) (id : CaptureId) (domainSlots partitionSlots : Nat) : Bool :=
  (checkedAdd usizeMax id.scope.domain.utf8ByteSize id.scope.partition.utf8ByteSize).any
      (fun bytes : Nat => bytes ≤ config.maxScopeBytes) &&
    !id.scope.domain.isEmpty && !id.scope.partition.isEmpty &&
    (checkedAdd usizeMax domainSlots partitionSlots).any
      (fun slots : Nat => slots ≤ config.maxScopeBytes) &&
    !id.donor.node.str.isEmpty &&
    id.donor.node.str.utf8ByteSize ≤ config.maxFollowerIdBytes &&
    id.donor.incarnation ≠ 0 && id.donor.session ≠ 0 && id.donor.attempt ≠ 0 &&
    id.recoveryGeneration ≠ 0 && id.serial ≠ 0

/-- The allocator gives the `k`th request for `count` at most the slots charged for it. -/
def slotted (alloc : Allocator) (k count : Nat) : Bool :=
  (alloc k count).any fun slots => (storageSlots count).any (slots ≤ ·)

def new (layout : Layout) (alloc : Allocator) (config : JournalConfig) (id : CaptureId)
    (domainSlots partitionSlots : Nat) : Except JournalError DonorJournal :=
  match config.validate layout with
  | .error error => .error (.config error)
  | .ok () =>
    if !validId config id domainSlots partitionSlots then .error .invalidIdentity
    else if !(slotted alloc 0 config.maxEvents && slotted alloc 1 config.maxFollowers &&
        slotted alloc 2 config.maxFollowers) then .error .capacity
    else .ok
      { config := config
        id := id
        state := .uncaptured
        reason := none
        now := 0
        captureStarted := none
        expires := none
        reservedEncoded := 0
        reservedDecoded := 0
        charge := none
        members := []
        imageCuts := []
        cuts := []
        deltas := []
        lastPosition := 0
        suffixBytes := 0
        inflightBytes := 0
        followers := []
        aborted := []
        nextReservation := 1
        nextOperation := 1 }

/-! ### Aborted followers -/

variable (j : DonorJournal)

def takeAborted : Call DonorJournal JournalError (List ReservationId) :=
  ({ j with aborted := j.aborted.map ({ · with notified := true }) },
    .ok ((j.aborted.filter (!·.notified)).map AbortedFollower.id))

/-- Releases an aborted follower with its charge. -/
def retireAborted (reservation : ReservationId) (batchOperation : Option Nat) :
    Call DonorJournal JournalError Unit :=
  match j.aborted.findIdx? (·.id = reservation) with
  | none => (j, .error .stale)
  | some index =>
    match j.aborted[index]? with
    | none => (j, .error .stale)
    | some aborted =>
      if aborted.outstanding.map OutstandingBatch.operation ≠ batchOperation then
        (j, .error .stale)
      else
        ({ j with
          aborted := j.aborted.eraseIdx index
          inflightBytes := j.inflightBytes - batchBytes aborted.outstanding }, .ok ())

/-- Ends the capture.  Its followers are aborted. -/
def invalidateInner (reason : Invalidation) : DonorJournal :=
  if j.state = .invalidated then j
  else
    { j with
      reason := some reason
      state := .invalidated
      expires := none
      captureStarted := none
      reservedEncoded := 0
      reservedDecoded := 0
      charge := none
      members := []
      imageCuts := []
      cuts := []
      deltas := []
      suffixBytes := 0
      followers := []
      aborted := j.aborted ++ j.followers.map Follower.abort }

def withdraw (reason : Invalidation) (error : JournalError) {α : Type} :
    Call DonorJournal JournalError α :=
  (j.invalidateInner reason, .error error)

def expireFollowers (now : Time) : DonorJournal :=
  { j with
    followers := j.followers.filter (now < ·.due)
    aborted := j.aborted ++ (j.followers.filter (·.due ≤ now)).map Follower.abort }

def advance (now : Time) : Call DonorJournal JournalError Unit :=
  if now < j.now then (j, .error .backwardTime)
  else if j.expires.any (· ≤ now) then { j with now := now }.withdraw .expired .expired
  else ({ j with now := now }.expireFollowers now, .ok ())

def tick (now : Time) : Call DonorJournal JournalError Unit := j.advance now

def invalidate (reason : Invalidation) : Call DonorJournal JournalError Unit :=
  (j.invalidateInner reason, .ok ())

/-! ### The capture -/

/-- The members are valid, in order and within the byte limit, after `bytes` bytes and the node
`previous`. -/
def orderedMembers (config : JournalConfig) :
    Option NodeId → Nat → List BootstrapMemberIdentity → Bool
  | _, _, [] => true
  | previous, bytes, member :: members =>
    match checkedAdd usizeMax bytes member.node.str.utf8ByteSize with
    | none => false
    | some bytes =>
      member.validBounded config.maxFollowerIdBytes && bytes ≤ config.maxMembershipBytes &&
        previous.all (· < member.node) &&
        orderedMembers config (some member.node) bytes members

def validMembers (members : List BootstrapMemberIdentity) :
    Except JournalError Unit :=
  if members.isEmpty || j.config.maxMembers < members.length then .error .capacity
  else if !orderedMembers j.config none 0 members then .error .capacity
  else if !members.any (·.matchesClaim j.id.donor) then .error .conflict
  else .ok ()

/-- The cuts are in order and within the byte limit, after `bytes` bytes and `previous`. -/
def orderedCuts (config : JournalConfig) : Option (List UInt8) → Nat → List NativeCut → Bool
  | _, _, [] => true
  | previous, bytes, cut :: cuts =>
    match checkedAdd usizeMax bytes cut.writer.length with
    | none => false
    | some bytes =>
      !cut.writer.isEmpty && cut.epoch ≠ 0 && bytes ≤ config.maxCutBytes &&
        previous.all (· < cut.writer) && orderedCuts config (some cut.writer) bytes cuts

def validCuts (cuts : List NativeCut) : Except JournalError Unit :=
  if j.config.maxCuts < cuts.length then .error .capacity
  else if !orderedCuts j.config none 0 cuts then .error .capacity
  else .ok ()

def copyCut (config : JournalConfig) (alloc : Allocator) (k : Nat) (cut : NativeCut) :
    Except JournalError NativeCut :=
  match alloc k cut.writer.length with
  | none => .error .capacity
  | some slots => if config.maxCutBytes < slots then .error .capacity else .ok cut

def copyImageCuts (config : JournalConfig) (alloc : Allocator) (cuts : List NativeCut) :
    Except JournalError (List NativeCut) :=
  match alloc 0 cuts.length, storageSlots config.maxCuts with
  | some slots, some maxSlots =>
    if maxSlots < slots then .error .capacity
    else cuts.zipIdx.mapM fun (cut, k) => copyCut config alloc (k + 1) cut
  | _, _ => .error .capacity

/-- The vectors of a plan occupy no more than is charged for them. -/
def planFits (config : JournalConfig) (plan : CapturePlan) : Bool :=
  plan.memberSlots ≤ (storageSlots config.maxMembers).getD 0 &&
    plan.cutSlots ≤ (storageSlots config.maxCuts).getD 0 &&
    plan.writerSlots.all (· ≤ config.maxCutBytes)

/-- Reserves the image before it is cloned. -/
def beginCapture (alloc : Allocator) (now : Time) (plan : CapturePlan) :
    Call DonorJournal JournalError CaptureCharge :=
  (j.advance now).andThen fun j _ =>
  if j.state ≠ .uncaptured then (j, .error .stage)
  else if j.config.maxEncodedBytes < plan.image.encodedBytes ∨
      j.config.maxDecodedBytes < plan.image.decodedBytes then j.withdraw .capacity .capacity
  else match (j.validMembers plan.members).bind fun _ => j.validCuts plan.cuts with
  | .error error => j.withdraw (if error = .conflict then .membership else .capacity) error
  | .ok () =>
    if !planFits j.config plan then j.withdraw .capacity .capacity
    else match copyImageCuts j.config alloc plan.cuts with
    | .error error => j.withdraw .capacity error
    | .ok imageCuts =>
      match checkedAdd u64Max now j.config.maxTotalMs with
      | none => j.withdraw .capacity .exhausted
      | some expires =>
        ({ j with
          expires := some expires
          captureStarted := some now
          reservedEncoded := plan.image.encodedBytes
          reservedDecoded := plan.image.decodedBytes
          members := plan.members
          imageCuts := imageCuts
          cuts := plan.cuts
          state := .capturing }, .ok ⟨plan.image, j.config.maxSuffixBytes, now⟩)

def cursor (position : Nat) : JournalCursor := ⟨j.id, position⟩

/-- Completes the clone at the captured cut. -/
def finishCapture (now : Time) (actual : ImageSize) :
    Call DonorJournal JournalError JournalCursor :=
  (j.advance now).andThen fun j _ =>
  if j.state ≠ .capturing then (j, .error .stage)
  else if j.reservedEncoded < actual.encodedBytes ∨ j.reservedDecoded < actual.decodedBytes then
    j.withdraw .capacity .capacity
  else match j.captureStarted with
  | none => (j, .error .stage)
  | some started =>
    ({ j with
      charge := some ⟨actual, j.config.maxSuffixBytes, started⟩
      state := .active }, .ok (j.cursor 0))

/-- The image is being encoded or available. -/
def held : Bool := j.state = .capturing || j.state = .active

/-- Compares a cut of the group with the one of the capture. -/
def observeMembership (now : Time) (members : List BootstrapMemberIdentity) :
    Call DonorJournal JournalError Unit :=
  (j.advance now).andThen fun j _ =>
  if !j.held then (j, .error .stage)
  else if !(j.validMembers members).isOk || !sameMembership members j.members then
    j.withdraw .membership .conflict
  else (j, .ok ())

/-! ### Deltas -/

/-- Where a writer's covered cut goes, or why the capture ends. -/
def advanceCut (covered cut : NativeCut) (renewedFrom : Option (Nat × Nat)) :
    Except (Invalidation × JournalError) NativeCut :=
  match renewedFrom with
  | some sealed =>
    if (covered.epoch, covered.sequence) ≠ sealed ∨ cut.epoch ≤ sealed.1 ∨ cut.sequence ≠ 0 then
      .error (.gap, .conflict)
    else .ok { covered with epoch := cut.epoch, sequence := 0 }
  | none =>
    if covered.epoch ≠ cut.epoch then .error (.membership, .conflict)
    else match checkedAdd u64Max covered.sequence 1 with
    | none => .error (.conflict, .exhausted)
    | some next =>
      if cut.sequence ≠ next then .error (.gap, .conflict)
      else .ok { covered with sequence := cut.sequence }

def coverCuts (cuts : List NativeCut) (identity : DeltaIdentity)
    (renewedFrom : Option (Nat × Nat)) : Except (Invalidation × JournalError) (List NativeCut) :=
  match identity with
  | .local _ => .ok cuts
  | .native cut =>
    match cuts.findIdx? (·.writer = cut.writer), cuts.find? (·.writer = cut.writer) with
    | some index, some covered =>
      (advanceCut covered cut renewedFrom).map fun moved => cuts.set index moved
    | _, _ => .error (.membership, .conflict)

/-- The delta is within every limit.  The slots are what its two vectors occupy. -/
def admits (identity : DeltaIdentity) (effect : List UInt8) (identitySlots effectSlots : Nat) :
    Option Nat :=
  match checkedAdd usizeMax identity.size effect.length with
  | none => none
  | some eventBytes =>
    match checkedAdd usizeMax j.suffixBytes eventBytes with
    | none => none
    | some totalBytes =>
      if identity.size = 0 ∨ effect.isEmpty ∨ j.config.maxEventBytes < effectSlots ∨
          j.config.maxIdentityBytes < identitySlots ∨
          j.config.maxIdentityBytes < identity.size ∨ j.config.maxEventBytes < eventBytes ∨
          j.config.maxSuffixBytes < totalBytes ∨ j.config.maxEvents ≤ j.deltas.length then none
      else some totalBytes

def record (now : Time) (recoveryGeneration : Nat) (identity : DeltaIdentity) (effect : List UInt8)
    (identitySlots effectSlots : Nat) (renewedFrom : Option (Nat × Nat)) :
    Call DonorJournal JournalError JournalCursor :=
  (j.advance now).andThen fun j _ =>
  if !j.held then (j, .error .stage)
  else if recoveryGeneration ≠ j.id.recoveryGeneration then j.withdraw .rebuild .stale
  else match j.deltas.find? (·.identity = identity) with
  | some existing =>
    if existing.effect = effect then (j, .ok (j.cursor existing.position))
    else j.withdraw .conflict .conflict
  | none =>
    match j.admits identity effect identitySlots effectSlots with
    | none => j.withdraw .capacity .capacity
    | some totalBytes =>
      match coverCuts j.cuts identity renewedFrom with
      | .error (reason, error) => j.withdraw reason error
      | .ok cuts =>
        match checkedAdd u64Max j.lastPosition 1 with
        | none => j.withdraw .capacity .exhausted
        | some position =>
          ({ j with
            cuts := cuts
            lastPosition := position
            suffixBytes := totalBytes
            deltas := j.deltas ++ [⟨position, identity, effect⟩] },
            .ok (j.cursor position))

/-- Records a change of the index. -/
def append (now : Time) (recoveryGeneration : Nat) (identity : DeltaIdentity) (effect : List UInt8)
    (identitySlots effectSlots : Nat) :
    Call DonorJournal JournalError JournalCursor :=
  j.record now recoveryGeneration identity effect identitySlots effectSlots none

/-- Records that a writer was sealed and continues in a newer epoch. -/
def renew (now : Time) (recoveryGeneration : Nat) (renewal : NativeRenewal) (effect : List UInt8)
    (identitySlots effectSlots : Nat) :
    Call DonorJournal JournalError JournalCursor :=
  j.record now recoveryGeneration (.native ⟨renewal.sealed.writer, renewal.epoch, 0⟩) effect
    identitySlots effectSlots (some (renewal.sealed.epoch, renewal.sealed.sequence))

/-! ### Followers -/

def followerIndex (reservation : ReservationId) : Option (Nat × Follower) := do
  let index ← j.followers.findIdx? (·.id = reservation)
  let follower ← j.followers[index]?
  return (index, follower)

def onFollower (reservation : ReservationId) {α : Type}
    (f : Nat → Follower → Call DonorJournal JournalError α) : Call DonorJournal JournalError α :=
  match j.followerIndex reservation with
  | none => (j, .error .stale)
  | some (index, follower) => f index follower

def setFollower (index : Nat) (follower : Follower) : DonorJournal :=
  { j with followers := j.followers.set index follower }

def operationToken : Call DonorJournal JournalError Nat :=
  match checkedAdd u64Max j.nextOperation 1 with
  | none => (j, .error .exhausted)
  | some next => ({ j with nextOperation := next }, .ok j.nextOperation)

def hasRoom (follower : ClaimIdentity) : Bool :=
  !follower.node.str.isEmpty && follower.node.str.utf8ByteSize ≤ j.config.maxFollowerIdBytes &&
    follower.incarnation ≠ 0 && follower.session ≠ 0 && follower.attempt ≠ 0 &&
    j.followers.length < j.config.maxFollowers - j.aborted.length

def reserve (now : Time) (follower : ClaimIdentity) (from' : JournalCursor) :
    Call DonorJournal JournalError ReservationId :=
  (j.advance now).andThen fun j _ =>
  if j.state ≠ .active then (j, .error .stage)
  else if from'.capture ≠ j.id ∨ from'.position ≠ 0 then (j, .error .stale)
  else if !j.hasRoom follower then (j, .error .capacity)
  else if j.followers.any (·.id.follower = follower) then (j, .error .stale)
  else match checkedAdd u64Max now j.config.maxFollowerMs with
  | none => (j, .error .exhausted)
  | some due =>
    match j.expires with
    | none => (j, .error .stage)
    | some expires =>
      match checkedAdd u64Max j.nextReservation 1 with
      | none => (j, .error .exhausted)
      | some next =>
        let id : ReservationId := ⟨j.id, follower, j.nextReservation⟩
        ({ j with
          nextReservation := next
          followers := j.followers ++
            [⟨id, min due expires, .reserved, none, none, 0, none, none⟩] }, .ok id)

def reservedFor (now : Time) (follower : ClaimIdentity) (from' : JournalCursor) :
    Call DonorJournal JournalError (Option ReservationId) :=
  (j.advance now).andThen fun j _ =>
  if j.state ≠ .active ∨ from'.capture ≠ j.id ∨ from'.position ≠ 0 then (j, .error .stale)
  else (j, .ok ((j.followers.find? (·.id.follower = follower)).map Follower.id))

/-- Issues the token of an attachment. -/
def beginAttach (now : Time) (reservation : ReservationId) :
    Call DonorJournal JournalError AttachToken :=
  (j.advance now).andThen fun j _ =>
  j.onFollower reservation fun index follower =>
  if follower.stage ≠ .reserved then (j, .error .stage)
  else j.operationToken.andThen fun j operation =>
    (j.setFollower index { follower with stage := .attaching, attachOperation := some operation },
      .ok ⟨reservation, operation⟩)

/-- The token of an attachment that was started. -/
def attachmentFor (now : Time) (reservation : ReservationId) :
    Call DonorJournal JournalError AttachToken :=
  (j.advance now).andThen fun j _ =>
  j.onFollower reservation fun _ follower =>
  if follower.stage = .reserved then (j, .error .stage)
  else match follower.attachOperation with
  | none => (j, .error .stage)
  | some operation => (j, .ok ⟨reservation, operation⟩)

def confirmAttach (now : Time) (token : AttachToken) :
    Call DonorJournal JournalError Unit :=
  (j.advance now).andThen fun j _ =>
  j.onFollower token.reservation fun index follower =>
  if follower.attachOperation ≠ some token.operation ∨ follower.stage = .reserved then
    (j, .error .stale)
  else (j.setFollower index { follower with stage := .attached }, .ok ())

/-- The slots of a clone of `count` items, at the allocator's `k`th request. -/
def cloned (alloc : Allocator) (k count : Nat) : Nat := (alloc k count).getD count

/-- The copies a barrier keeps occupy no more than is charged for them. -/
def savedBarrierFits (alloc : Allocator) (receipt : BarrierReceipt) : Bool :=
  cloned alloc 0 receipt.members.length ≤ (storageSlots j.config.maxMembers).getD 0 &&
    cloned alloc 1 receipt.coveredCuts.length ≤ (storageSlots j.config.maxCuts).getD 0 &&
    receipt.coveredCuts.zipIdx.all fun (cut, k) =>
      cloned alloc (k + 2) cut.writer.length ≤ j.config.maxCutBytes

def sampleBarrier (alloc : Allocator) (index : Nat) (follower : Follower)
    (reservation : ReservationId) (attachOperation : Option Nat) :
    Call DonorJournal JournalError BarrierReceipt :=
  j.operationToken.andThen fun j barrierOperation =>
  match attachOperation with
  | none => (j, .error .stage)
  | some attachOperation =>
    let receipt : BarrierReceipt := ⟨reservation, attachOperation, barrierOperation,
      j.cursor j.lastPosition, j.cuts, j.members⟩
    if !j.savedBarrierFits alloc receipt then j.withdraw .capacity .capacity
    else (j.setFollower index { follower with barrier := some receipt }, .ok receipt)

/-- The barrier of a follower, sampled at the first call. -/
def barrier (j : DonorJournal) (alloc : Allocator) (now : Time) (reservation : ReservationId) :
    Call DonorJournal JournalError BarrierReceipt :=
  (j.advance now).andThen fun j _ =>
  j.onFollower reservation fun index follower =>
  if follower.stage ≠ .attached then (j, .error .stage)
  else match follower.barrier with
  | some receipt => (j, .ok receipt)
  | none => j.sampleBarrier alloc index follower reservation follower.attachOperation

/-- Samples a later barrier, once the last one is acknowledged. -/
def advanceBarrier (alloc : Allocator) (now : Time) (reservation : ReservationId)
    (expected : BarrierReceipt) :
    Call DonorJournal JournalError BarrierReceipt :=
  (j.advance now).andThen fun j _ =>
  j.onFollower reservation fun index follower =>
  if follower.stage ≠ .attached ∨ follower.barrier ≠ some expected ∨
      follower.acked ≠ expected.cursor.position ∨ follower.outstanding.isSome then
    (j, .error .stale)
  else j.sampleBarrier alloc index follower reservation (some expected.attachOperation)

/-! ### Batches -/

def between (from' through : Nat) : List JournalDelta :=
  j.deltas.filter fun delta => from' < delta.position ∧ delta.position ≤ through

/-- Takes deltas while they fit a batch.  The result is their number, their bytes and the last
position. -/
def fill (config : JournalConfig) :
    List JournalDelta → Nat → Nat → Nat → Option (Nat × Nat × Nat)
  | [], count, bytes, last => some (count, bytes, last)
  | delta :: deltas, count, bytes, last =>
    match checkedAdd usizeMax delta.identity.size delta.effect.length with
    | none => none
    | some eventBytes =>
      match checkedAdd usizeMax bytes eventBytes with
      | none => none
      | some nextBytes =>
        if config.maxBatchEvents ≤ count ∨ config.maxBatchBytes < nextBytes then
          some (count, bytes, last)
        else fill config deltas (count + 1) nextBytes delta.position

def batch (reservation : ReservationId) (from' : Nat) (outstanding : OutstandingBatch)
    (deltas : List JournalDelta) : JournalBatch :=
  ⟨reservation, outstanding.operation, j.cursor from', j.cursor outstanding.through, deltas,
    outstanding.bytes⟩

def takeBatch (index : Nat) (follower : Follower) (reservation : ReservationId)
    (barrier : BarrierReceipt) : Call DonorJournal JournalError (Option JournalBatch) :=
  match fill j.config (j.between follower.acked barrier.cursor.position) 0 0 follower.acked with
  | none => (j, .error .capacity)
  | some (count, bytes, last) =>
    match checkedAdd usizeMax j.inflightBytes bytes with
    | none => (j, .error .capacity)
    | some newInflight =>
      if count = 0 ∨ j.config.maxInflightBytes < newInflight then (j, .error .capacity)
      else if charged : 0 < bytes then
        j.operationToken.andThen fun j operation =>
          let outstanding : OutstandingBatch := ⟨operation, last, ⟨bytes, charged⟩⟩
          ({ j.setFollower index { follower with outstanding := some outstanding } with
            inflightBytes := newInflight },
            .ok (some (j.batch reservation follower.acked outstanding
              ((j.between follower.acked last).take count))))
      else (j, .error .capacity)

/-- The next batch of a follower, or again the one it has not acknowledged. -/
def readBatch (now : Time) (reservation : ReservationId) (barrier : BarrierReceipt) :
    Call DonorJournal JournalError (Option JournalBatch) :=
  (j.advance now).andThen fun j _ =>
  j.onFollower reservation fun index follower =>
  if follower.stage ≠ .attached then (j, .error .stage)
  else if follower.barrier ≠ some barrier ∨ barrier.reservation ≠ reservation ∨
      barrier.cursor.capture ≠ j.id ∨ j.lastPosition < barrier.cursor.position ∨
      barrier.cursor.position < follower.acked then (j, .error .stale)
  else match follower.outstanding with
  | some outstanding =>
    (j, .ok (some (j.batch reservation follower.acked outstanding
      (j.between follower.acked outstanding.through))))
  | none =>
    if follower.acked = barrier.cursor.position then (j, .ok none)
    else j.takeBatch index follower reservation barrier

def ackBatch (now : Time) (reservation : ReservationId) (operation : Nat)
    (through : JournalCursor) : Call DonorJournal JournalError JournalCursor :=
  (j.advance now).andThen fun j _ =>
  j.onFollower reservation fun index follower =>
  match follower.outstanding with
  | none =>
    if through.capture = j.id ∧ follower.lastAcked = some (operation, through.position) then
      (j, .ok (j.cursor through.position))
    else (j, .error .stale)
  | some outstanding =>
    if through.capture ≠ j.id ∨ outstanding.operation ≠ operation ∨
        outstanding.through ≠ through.position then (j, .error .stale)
    else
      ({ j.setFollower index
          { follower with
            acked := outstanding.through
            lastAcked := some (operation, through.position)
            outstanding := none } with
        inflightBytes := j.inflightBytes - outstanding.bytes }, .ok (j.cursor through.position))

/-- The acknowledged position of a follower. -/
def acknowledged (now : Time) (reservation : ReservationId) :
    Call DonorJournal JournalError JournalCursor :=
  (j.advance now).andThen fun j _ =>
  j.onFollower reservation fun _ follower => (j, .ok (j.cursor follower.acked))

/-- Releases a follower with its charge. -/
def release (now : Time) (reservation : ReservationId) :
    Call DonorJournal JournalError Unit :=
  (j.advance now).andThen fun j _ =>
  j.onFollower reservation fun index follower =>
  ({ j with
    followers := j.followers.eraseIdx index
    inflightBytes := j.inflightBytes - batchBytes follower.outstanding }, .ok ())

end DonorJournal

/-! ## Runs -/

inductive JournalCall where
  | takeAborted
  | retireAborted (reservation : ReservationId) (batchOperation : Option Nat)
  | tick (now : Time)
  | invalidate (reason : Invalidation)
  | beginCapture (alloc : Allocator) (now : Time) (plan : CapturePlan)
  | finishCapture (now : Time) (actual : ImageSize)
  | observeMembership (now : Time) (members : List BootstrapMemberIdentity)
  | append (now : Time) (recoveryGeneration : Nat) (identity : DeltaIdentity)
      (effect : List UInt8) (identitySlots effectSlots : Nat)
  | renew (now : Time) (recoveryGeneration : Nat) (renewal : NativeRenewal)
      (effect : List UInt8) (identitySlots effectSlots : Nat)
  | reserve (now : Time) (follower : ClaimIdentity) (from' : JournalCursor)
  | reservedFor (now : Time) (follower : ClaimIdentity) (from' : JournalCursor)
  | beginAttach (now : Time) (reservation : ReservationId)
  | attachmentFor (now : Time) (reservation : ReservationId)
  | confirmAttach (now : Time) (token : AttachToken)
  | barrier (alloc : Allocator) (now : Time) (reservation : ReservationId)
  | advanceBarrier (alloc : Allocator) (now : Time) (reservation : ReservationId)
      (expected : BarrierReceipt)
  | readBatch (now : Time) (reservation : ReservationId) (barrier : BarrierReceipt)
  | ackBatch (now : Time) (reservation : ReservationId) (operation : Nat)
      (through : JournalCursor)
  | acknowledged (now : Time) (reservation : ReservationId)
  | release (now : Time) (reservation : ReservationId)

namespace DonorJournal

def call (j : DonorJournal) : JournalCall → DonorJournal
  | .takeAborted => j.takeAborted.1
  | .retireAborted reservation batchOperation => (j.retireAborted reservation batchOperation).1
  | .tick now => (j.tick now).1
  | .invalidate reason => (j.invalidate reason).1
  | .beginCapture alloc now plan => (j.beginCapture alloc now plan).1
  | .finishCapture now actual => (j.finishCapture now actual).1
  | .observeMembership now members => (j.observeMembership now members).1
  | .append now generation identity effect identitySlots effectSlots =>
    (j.append now generation identity effect identitySlots effectSlots).1
  | .renew now generation renewal effect identitySlots effectSlots =>
    (j.renew now generation renewal effect identitySlots effectSlots).1
  | .reserve now follower from' => (j.reserve now follower from').1
  | .reservedFor now follower from' => (j.reservedFor now follower from').1
  | .beginAttach now reservation => (j.beginAttach now reservation).1
  | .attachmentFor now reservation => (j.attachmentFor now reservation).1
  | .confirmAttach now token => (j.confirmAttach now token).1
  | .barrier alloc now reservation => (j.barrier alloc now reservation).1
  | .advanceBarrier alloc now reservation expected =>
    (j.advanceBarrier alloc now reservation expected).1
  | .readBatch now reservation barrier => (j.readBatch now reservation barrier).1
  | .ackBatch now reservation operation through =>
    (j.ackBatch now reservation operation through).1
  | .acknowledged now reservation => (j.acknowledged now reservation).1
  | .release now reservation => (j.release now reservation).1

def run (j : DonorJournal) (calls : List JournalCall) : DonorJournal := calls.foldl call j

end DonorJournal

end Groupnet.Bootstrap
