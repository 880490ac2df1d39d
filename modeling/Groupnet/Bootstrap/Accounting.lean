import Groupnet.Bootstrap.Journal
import Groupnet.Lib.Tally

/-!
# The journal's accounts

What a journal keeps count of agrees with what it holds.  Every call is a sequence of moves, and
each move keeps the accounts.  The bytes in flight are the bytes of the batches that live and
aborted followers have not acknowledged, so that a charge is never released twice.
-/

namespace Groupnet.Bootstrap

open Call

namespace DonorJournal

/-! ## Moves -/

variable {index : Nat} {follower : Follower}

/-- Only the clock, the tokens or the stage of the capture differ. -/
structure Aside (j j' : DonorJournal) : Prop where
  config : j'.config = j.config
  id : j'.id = j.id
  deltas : j'.deltas = j.deltas
  lastPosition : j'.lastPosition = j.lastPosition
  suffixBytes : j'.suffixBytes = j.suffixBytes
  inflightBytes : j'.inflightBytes = j.inflightBytes
  followers : j'.followers = j.followers
  aborted : j'.aborted = j.aborted
  invalidated : j'.state = .invalidated ↔ j.state = .invalidated
  active : j.state = .active → j'.state = .active

/-- What one part of a call can do to a journal. -/
inductive Move : DonorJournal → DonorJournal → Prop
  | aside {j j' : DonorJournal} (h : Aside j j') : Move j j'
  | expire (j : DonorJournal) (now : Time) : Move j (j.expireFollowers now)
  | invalidate (j : DonorJournal) (reason : Invalidation) : Move j (j.invalidateInner reason)
  | record {j : DonorJournal} (cuts : List NativeCut) (identity : DeltaIdentity)
      (effect : List UInt8) (hheld : j.held)
      (hroom : j.suffixBytes + (identity.size + effect.length) ≤ j.config.maxSuffixBytes) :
      Move j { j with
        cuts := cuts
        lastPosition := j.lastPosition + 1
        suffixBytes := j.suffixBytes + (identity.size + effect.length)
        deltas := j.deltas ++ [⟨j.lastPosition + 1, identity, effect⟩] }
  | reserve {j : DonorJournal} (next : Nat) (follower : Follower) (hactive : j.state = .active)
      (hnone : follower.outstanding = none)
      (hroom : j.followers.length + j.aborted.length < j.config.maxFollowers) :
      Move j { j with nextReservation := next, followers := j.followers ++ [follower] }
  | replace {j : DonorJournal} {index : Nat} {follower : Follower} (follower' : Follower)
      (hfollower : j.followers[index]? = some follower)
      (hroom : batchBytes follower'.outstanding ≤ batchBytes follower.outstanding ∨
        j.inflightBytes + batchBytes follower'.outstanding ≤
          j.config.maxInflightBytes + batchBytes follower.outstanding)
      (hthrough : ∀ batch, follower'.outstanding = some batch →
        follower.outstanding = some batch ∨ batch.through ≤ j.lastPosition) :
      Move j { j.setFollower index follower' with
        inflightBytes := j.inflightBytes + batchBytes follower'.outstanding -
          batchBytes follower.outstanding }
  | release {j : DonorJournal} {index : Nat} {follower : Follower}
      (hfollower : j.followers[index]? = some follower) :
      Move j { j with
        followers := j.followers.eraseIdx index
        inflightBytes := j.inflightBytes - batchBytes follower.outstanding }
  | notify (j : DonorJournal) :
      Move j { j with aborted := j.aborted.map ({ · with notified := true }) }
  | retire {j : DonorJournal} {index : Nat} {aborted : AbortedFollower}
      (haborted : j.aborted[index]? = some aborted) :
      Move j { j with
        aborted := j.aborted.eraseIdx index
        inflightBytes := j.inflightBytes - batchBytes aborted.outstanding }

variable {j j' : DonorJournal} {α : Type} {reservation : ReservationId}

theorem Move.clock (j : DonorJournal) (now : Time) : Move j { j with now := now } :=
  .aside ⟨rfl, rfl, rfl, rfl, rfl, rfl, rfl, rfl, .rfl, fun h => h⟩

section

variable (hfollower : j.followers[index]? = some follower)

include hfollower

/-- A follower may change in all but its batch. -/
theorem Move.adjust {follower' : Follower} (hsame : follower'.outstanding = follower.outstanding) :
    Move j (j.setFollower index follower') := by
  have hmove := Move.replace follower' hfollower (.inl (by rw [hsame]))
    fun batch hbatch => .inl (hsame.symm.trans hbatch)
  rw [hsame, Nat.add_sub_cancel] at hmove
  exact hmove

theorem Move.charge (hnone : follower.outstanding = none) {batch : OutstandingBatch}
    (hroom : j.inflightBytes + batch.bytes ≤ j.config.maxInflightBytes)
    (hthrough : batch.through ≤ j.lastPosition) :
    Move j { j.setFollower index { follower with outstanding := some batch } with
      inflightBytes := j.inflightBytes + batch.bytes } := by
  have hmove := Move.replace { follower with outstanding := some batch } hfollower
    (.inr (by simpa [hnone, batchBytes] using hroom)) fun batch' hbatch =>
      .inr (by cases hbatch; exact hthrough)
  simpa [hnone, batchBytes] using hmove

/-- A batch that is acknowledged is not charged any more. -/
theorem Move.settle {batch : OutstandingBatch} (hbatch : follower.outstanding = some batch)
    (acked : Nat) (lastAcked : Option (Nat × Nat)) :
    Move j { j.setFollower index
        { follower with acked := acked, lastAcked := lastAcked, outstanding := none } with
      inflightBytes := j.inflightBytes - batch.bytes } := by
  have hmove := Move.replace
    { follower with acked := acked, lastAcked := lastAcked, outstanding := none } hfollower
    (.inl (Nat.zero_le _)) fun _ hnone => nomatch hnone
  simpa [hbatch, batchBytes] using hmove

end

theorem advance_moves (j : DonorJournal) (now : Time) : Moves Move j (j.advance now) := by
  unfold advance
  refine .ite (fun _ => .refl _ _) fun _ => .ite (fun _ => ?_) fun _ => ?_
  · exact .head (.clock j now) (.single _ (.invalidate _ _))
  · exact .head (.clock j now) (.single _ (.expire _ _))

theorem withdraw_moves (j : DonorJournal) (reason : Invalidation) (error : JournalError) :
    Moves Move j (j.withdraw reason error : Call DonorJournal JournalError α) :=
  .single _ (.invalidate _ _)

theorem operationToken_aside (j : DonorJournal) : Aside j j.operationToken.1 := by
  unfold operationToken
  split <;> exact ⟨rfl, rfl, rfl, rfl, rfl, rfl, rfl, rfl, .rfl, fun h => h⟩

theorem operationToken_moves (j : DonorJournal) : Moves Move j j.operationToken :=
  Relation.ReflTransGen.single (.aside (operationToken_aside j))

theorem followerIndex_eq_some (h : j.followerIndex reservation = some (index, follower)) :
    j.followers.findIdx? (·.id = reservation) = some index ∧
      j.followers[index]? = some follower := by
  unfold followerIndex at h
  obtain ⟨index', hindex, h⟩ := Option.bind_eq_some_iff.mp h
  obtain ⟨follower', hfollower, h⟩ := Option.bind_eq_some_iff.mp h
  cases h
  exact ⟨hindex, hfollower⟩

theorem onFollower_moves {f : Nat → Follower → Call DonorJournal JournalError α}
    (h : ∀ index follower, j.followers[index]? = some follower → Moves Move j (f index follower)) :
    Moves Move j (j.onFollower reservation f) := by
  unfold onFollower
  split
  · exact .refl _ _
  · exact h _ _ (followerIndex_eq_some ‹_›).2

/-! ### The calls as moves -/

theorem takeAborted_moves (j : DonorJournal) : Moves Move j j.takeAborted :=
  .single _ (.notify j)

theorem retireAborted_moves (j : DonorJournal) (reservation : ReservationId)
    (batchOperation : Option Nat) : Moves Move j (j.retireAborted reservation batchOperation) := by
  unfold retireAborted
  split
  · exact .refl _ _
  split
  · exact .refl _ _
  · exact .ite (fun _ => .refl _ _) fun _ => .single _ (.retire ‹_›)

theorem beginCapture_moves (j : DonorJournal) (alloc : Allocator) (now : Time)
    (plan : CapturePlan) : Moves Move j (j.beginCapture alloc now plan) := by
  refine (advance_moves j now).andThen fun _ _ => ?_
  generalize (j.advance now).1 = j
  refine .ite (fun _ => .refl _ _) fun hstate => ?_
  refine .ite (fun _ => withdraw_moves _ _ _) fun _ => ?_
  split
  · exact withdraw_moves _ _ _
  refine .ite (fun _ => withdraw_moves _ _ _) fun _ => ?_
  split
  · exact withdraw_moves _ _ _
  split
  · exact withdraw_moves _ _ _
  rw [not_not] at hstate
  refine .single _ (.aside ⟨rfl, rfl, rfl, rfl, rfl, rfl, rfl, rfl, ?_, ?_⟩) <;>
    simp [hstate]

theorem finishCapture_moves (j : DonorJournal) (now : Time) (actual : ImageSize) :
    Moves Move j (j.finishCapture now actual) := by
  refine (advance_moves j now).andThen fun _ _ => ?_
  generalize (j.advance now).1 = j
  refine .ite (fun _ => .refl _ _) fun hstate => ?_
  refine .ite (fun _ => withdraw_moves _ _ _) fun _ => ?_
  split
  · exact .refl _ _
  · rw [not_not] at hstate
    refine .single _ (.aside ⟨rfl, rfl, rfl, rfl, rfl, rfl, rfl, rfl, ?_, ?_⟩) <;> simp [hstate]

theorem observeMembership_moves (j : DonorJournal) (now : Time)
    (members : List BootstrapMemberIdentity) : Moves Move j (j.observeMembership now members) := by
  refine (advance_moves j now).andThen fun _ _ => ?_
  refine .ite (fun _ => .refl _ _) fun _ => .ite (fun _ => withdraw_moves _ _ _) fun _ => ?_
  exact .refl _ _

theorem admits_eq_some {identity : DeltaIdentity} {effect : List UInt8}
    {identitySlots effectSlots total : Nat}
    (h : j.admits identity effect identitySlots effectSlots = some total) :
    total = j.suffixBytes + (identity.size + effect.length) ∧ total ≤ j.config.maxSuffixBytes := by
  unfold admits at h
  split at h
  · cases h
  rename_i eventBytes hevent
  obtain ⟨-, rfl⟩ := checkedAdd_eq_some hevent
  split at h
  · cases h
  rename_i totalBytes htotal
  obtain ⟨-, rfl⟩ := checkedAdd_eq_some htotal
  split at h
  · cases h
  rename_i hlimits
  cases h
  simp only [not_or, not_lt] at hlimits
  exact ⟨rfl, hlimits.2.2.2.2.2.2.1⟩

theorem record_moves (j : DonorJournal) (now : Time) (generation : Nat) (identity : DeltaIdentity)
    (effect : List UInt8) (identitySlots effectSlots : Nat) (renewedFrom : Option (Nat × Nat)) :
    Moves Move j
      (j.record now generation identity effect identitySlots effectSlots renewedFrom) := by
  refine (advance_moves j now).andThen fun _ _ => ?_
  generalize (j.advance now).1 = j
  refine .ite (fun _ => .refl _ _) fun hheld => .ite (fun _ => withdraw_moves _ _ _) fun _ => ?_
  split
  · exact .ite (fun _ => .refl _ _) fun _ => withdraw_moves _ _ _
  split
  · exact withdraw_moves _ _ _
  rename_i total htotal
  obtain ⟨rfl, hroom⟩ := admits_eq_some htotal
  split
  · exact withdraw_moves _ _ _
  split
  · exact withdraw_moves _ _ _
  rename_i position hposition
  obtain ⟨-, rfl⟩ := checkedAdd_eq_some hposition
  exact .single _ (.record _ identity effect (by simpa using hheld) hroom)

theorem reserve_moves (j : DonorJournal) (now : Time) (follower : ClaimIdentity)
    (from' : JournalCursor) : Moves Move j (j.reserve now follower from') := by
  refine (advance_moves j now).andThen fun _ _ => ?_
  generalize (j.advance now).1 = j
  refine .ite (fun _ => .refl _ _) fun hstate => .ite (fun _ => .refl _ _) fun _ => ?_
  refine .ite (fun _ => .refl _ _) fun hroom => .ite (fun _ => .refl _ _) fun _ => ?_
  split
  · exact .refl _ _
  split
  · exact .refl _ _
  split
  · exact .refl _ _
  rw [not_not] at hstate
  simp only [hasRoom, Bool.and_eq_true, decide_eq_true_eq, Bool.not_eq_true,
    Bool.not_eq_false'] at hroom
  exact .single _ (.reserve _ _ hstate rfl (by omega))

theorem reservedFor_moves (j : DonorJournal) (now : Time) (follower : ClaimIdentity)
    (from' : JournalCursor) : Moves Move j (j.reservedFor now follower from') := by
  refine (advance_moves j now).andThen fun _ _ => ?_
  exact .ite (fun _ => .refl _ _) fun _ => .refl _ _

theorem beginAttach_moves (j : DonorJournal) (now : Time) (reservation : ReservationId) :
    Moves Move j (j.beginAttach now reservation) := by
  refine (advance_moves j now).andThen fun _ _ =>
    onFollower_moves fun index follower hfollower => ?_
  refine .ite (fun _ => .refl _ _) fun _ => (operationToken_moves _).andThen fun operation _ => ?_
  rw [← (operationToken_aside _).followers] at hfollower
  exact .single _ (.adjust hfollower rfl)

theorem attachmentFor_moves (j : DonorJournal) (now : Time) (reservation : ReservationId) :
    Moves Move j (j.attachmentFor now reservation) := by
  refine (advance_moves j now).andThen fun _ _ => onFollower_moves fun index follower _ => ?_
  refine .ite (fun _ => .refl _ _) fun _ => ?_
  split <;> exact .refl _ _

theorem confirmAttach_moves (j : DonorJournal) (now : Time) (token : AttachToken) :
    Moves Move j (j.confirmAttach now token) := by
  refine (advance_moves j now).andThen fun _ _ =>
    onFollower_moves fun index follower hfollower => ?_
  exact .ite (fun _ => .refl _ _) fun _ => .single _ (.adjust hfollower rfl)

theorem sampleBarrier_moves (j : DonorJournal) (alloc : Allocator)
    (hfollower : j.followers[index]? = some follower) (reservation : ReservationId)
    (attachOperation : Option Nat) :
    Moves Move j (j.sampleBarrier alloc index follower reservation attachOperation) := by
  refine (operationToken_moves _).andThen fun operation _ => ?_
  split
  · exact .refl _ _
  · rw [← (operationToken_aside _).followers] at hfollower
    exact .ite (fun _ => withdraw_moves _ _ _) fun _ => .single _ (.adjust hfollower rfl)

theorem barrier_moves (j : DonorJournal) (alloc : Allocator) (now : Time)
    (reservation : ReservationId) : Moves Move j (j.barrier alloc now reservation) := by
  refine (advance_moves j now).andThen fun _ _ =>
    onFollower_moves fun index follower hfollower => ?_
  refine .ite (fun _ => .refl _ _) fun _ => ?_
  split
  · exact .refl _ _
  · exact sampleBarrier_moves _ alloc hfollower reservation _

theorem advanceBarrier_moves (j : DonorJournal) (alloc : Allocator) (now : Time)
    (reservation : ReservationId) (expected : BarrierReceipt) :
    Moves Move j (j.advanceBarrier alloc now reservation expected) := by
  refine (advance_moves j now).andThen fun _ _ =>
    onFollower_moves fun index follower hfollower => ?_
  exact .ite (fun _ => .refl _ _) fun _ => sampleBarrier_moves _ alloc hfollower reservation _

theorem mem_between {from' through : Nat} {delta : JournalDelta} :
    delta ∈ j.between from' through ↔
      delta ∈ j.deltas ∧ from' < delta.position ∧ delta.position ≤ through := by
  simp [between]

/-- A batch ends at a position of the deltas it was filled from, or where it began. -/
theorem fill_last {config : JournalConfig} {deltas : List JournalDelta} {bound : Nat}
    (hdeltas : ∀ delta ∈ deltas, delta.position ≤ bound) {count bytes last : Nat}
    (hlast : last ≤ bound) {count' bytes' last' : Nat}
    (h : fill config deltas count bytes last = some (count', bytes', last')) : last' ≤ bound := by
  induction deltas generalizing count bytes last with
  | nil =>
    cases h
    exact hlast
  | cons delta deltas ih =>
    unfold fill at h
    split at h
    · cases h
    split at h
    · cases h
    split at h
    · cases h
      exact hlast
    · exact ih (fun d hd => hdeltas d (List.mem_cons_of_mem _ hd))
        (hdeltas delta List.mem_cons_self) h

theorem takeBatch_moves (hfollower : j.followers[index]? = some follower)
    (hnone : follower.outstanding = none) (reservation : ReservationId) (barrier : BarrierReceipt)
    (hacked : follower.acked ≤ barrier.cursor.position)
    (hbarrier : barrier.cursor.position ≤ j.lastPosition) :
    Moves Move j (j.takeBatch index follower reservation barrier) := by
  unfold takeBatch
  split
  · exact .refl _ _
  rename_i count bytes last hfill
  have hlast : last ≤ j.lastPosition :=
    fill_last (fun d hd => (mem_between.mp hd).2.2.trans hbarrier) (hacked.trans hbarrier) hfill
  split
  · exact .refl _ _
  rename_i newInflight hadd
  obtain ⟨-, rfl⟩ := checkedAdd_eq_some hadd
  refine .ite (fun _ => .refl _ _) fun hroom => ?_
  split
  · refine (operationToken_moves j).andThen fun operation _ => ?_
    have haside := operationToken_aside j
    rw [← haside.followers] at hfollower
    rw [← haside.inflightBytes, ← haside.config] at hroom
    rw [← haside.lastPosition] at hlast
    rw [← haside.inflightBytes]
    push Not at hroom
    exact .single _ (.charge hfollower hnone hroom.2 hlast)
  · exact .refl _ _

theorem readBatch_moves (j : DonorJournal) (now : Time) (reservation : ReservationId)
    (barrier : BarrierReceipt) : Moves Move j (j.readBatch now reservation barrier) := by
  refine (advance_moves j now).andThen fun _ _ =>
    onFollower_moves fun index follower hfollower => ?_
  refine .ite (fun _ => .refl _ _) fun _ => .ite (fun _ => .refl _ _) fun hbarrier => ?_
  push Not at hbarrier
  split
  · exact .refl _ _
  · exact .ite (fun _ => .refl _ _) fun _ =>
      takeBatch_moves hfollower ‹_› _ _ hbarrier.2.2.2.2 hbarrier.2.2.2.1

theorem ackBatch_moves (j : DonorJournal) (now : Time) (reservation : ReservationId)
    (operation : Nat) (through : JournalCursor) :
    Moves Move j (j.ackBatch now reservation operation through) := by
  refine (advance_moves j now).andThen fun _ _ =>
    onFollower_moves fun index follower hfollower => ?_
  split
  · exact .ite (fun _ => .refl _ _) fun _ => .refl _ _
  · exact .ite (fun _ => .refl _ _) fun _ => .single _ (.settle hfollower ‹_› _ _)

theorem acknowledged_moves (j : DonorJournal) (now : Time) (reservation : ReservationId) :
    Moves Move j (j.acknowledged now reservation) :=
  (advance_moves j now).andThen fun _ _ => onFollower_moves fun _ _ _ => .refl _ _

theorem release_moves (j : DonorJournal) (now : Time) (reservation : ReservationId) :
    Moves Move j (j.release now reservation) :=
  (advance_moves j now).andThen fun _ _ =>
    onFollower_moves fun _ _ hfollower => .single _ (.release hfollower)

theorem call_moves (j : DonorJournal) (c : JournalCall) :
    Relation.ReflTransGen Move j (j.call c) := by
  cases c with
  | takeAborted => exact takeAborted_moves j
  | retireAborted reservation operation => exact retireAborted_moves j reservation operation
  | tick now => exact advance_moves j now
  | invalidate reason => exact .single (.invalidate j reason)
  | beginCapture alloc now plan => exact beginCapture_moves j alloc now plan
  | finishCapture now actual => exact finishCapture_moves j now actual
  | observeMembership now members => exact observeMembership_moves j now members
  | append now generation identity effect identitySlots effectSlots =>
    exact record_moves j now generation identity effect identitySlots effectSlots _
  | renew now generation renewal effect identitySlots effectSlots =>
    exact record_moves j now generation _ effect identitySlots effectSlots _
  | reserve now follower from' => exact reserve_moves j now follower from'
  | reservedFor now follower from' => exact reservedFor_moves j now follower from'
  | beginAttach now reservation => exact beginAttach_moves j now reservation
  | attachmentFor now reservation => exact attachmentFor_moves j now reservation
  | confirmAttach now token => exact confirmAttach_moves j now token
  | barrier alloc now reservation => exact barrier_moves j alloc now reservation
  | advanceBarrier alloc now reservation expected =>
    exact advanceBarrier_moves j alloc now reservation expected
  | readBatch now reservation barrier => exact readBatch_moves j now reservation barrier
  | ackBatch now reservation operation through =>
    exact ackBatch_moves j now reservation operation through
  | acknowledged now reservation => exact acknowledged_moves j now reservation
  | release now reservation => exact release_moves j now reservation

theorem run_moves (j : DonorJournal) (calls : List JournalCall) :
    Relation.ReflTransGen Move j (j.run calls) := by
  induction calls generalizing j with
  | nil => exact .refl
  | cons c calls ih => exact (call_moves j c).trans (ih _)

/-! ## The accounts -/

/-- The bytes of every batch that is charged. -/
def charged (j : DonorJournal) : Nat :=
  tally (fun follower : Follower => batchBytes follower.outstanding) j.followers +
    tally (fun aborted : AbortedFollower => batchBytes aborted.outstanding) j.aborted

/-- The counts of a journal agree with what it holds and are within its limits. -/
structure Accounted (j : DonorJournal) : Prop where
  inflight : j.inflightBytes = j.charged
  inflight_le : j.inflightBytes ≤ j.config.maxInflightBytes
  positions : j.state ≠ .invalidated →
    j.deltas.map JournalDelta.position = List.range' 1 j.lastPosition
  suffix : j.suffixBytes = tally JournalDelta.bytes j.deltas
  suffix_le : j.suffixBytes ≤ j.config.maxSuffixBytes
  followers_le : j.followers.length + j.aborted.length ≤ j.config.maxFollowers
  /-- Only an available capture has followers. -/
  active : j.followers ≠ [] → j.state = .active
  /-- A batch ends within the journal. -/
  through : ∀ follower ∈ j.followers, ∀ batch, follower.outstanding = some batch →
    batch.through ≤ j.lastPosition

@[simp] theorem tally_abort (followers : List Follower) :
    tally (fun aborted : AbortedFollower => batchBytes aborted.outstanding)
        (followers.map Follower.abort) =
      tally (fun follower : Follower => batchBytes follower.outstanding) followers := by
  simp only [tally, List.map_map]
  rfl

theorem filter_expired (followers : List Follower) (now : Time) :
    (followers.filter fun f => decide (f.due ≤ now)) =
      followers.filter fun f => !decide (now < f.due) := by
  refine List.filter_congr fun f _ => ?_
  rw [← decide_not]
  exact decide_eq_decide.mpr Nat.not_lt.symm

namespace Accounted

section

variable (h : Accounted j)

include h

theorem aside (ha : Aside j j') : Accounted j' where
  inflight := by
    unfold charged
    rw [ha.inflightBytes, ha.followers, ha.aborted]
    exact h.inflight
  inflight_le := by
    rw [ha.inflightBytes, ha.config]
    exact h.inflight_le
  positions hstate := by
    rw [ha.deltas, ha.lastPosition]
    exact h.positions fun hj => hstate (ha.invalidated.mpr hj)
  suffix := by
    rw [ha.suffixBytes, ha.deltas]
    exact h.suffix
  suffix_le := by
    rw [ha.suffixBytes, ha.config]
    exact h.suffix_le
  followers_le := by
    rw [ha.followers, ha.aborted, ha.config]
    exact h.followers_le
  active hfollowers := ha.active (h.active (ha.followers ▸ hfollowers))
  through := by
    rw [ha.followers, ha.lastPosition]
    exact h.through

/-- Followers that move to the aborted ones take their charge with them. -/
theorem expire (now : Time) : Accounted (j.expireFollowers now) where
  __ := h
  inflight := by
    have hparts := @tally_filter _ (fun f : Follower => batchBytes f.outstanding)
      (fun f : Follower => decide (now < f.due)) j.followers
    rw [← filter_expired] at hparts
    have hall := h.inflight
    simp only [charged, expireFollowers, tally_append, tally_abort] at hall ⊢
    omega
  followers_le := by
    have hle := h.followers_le
    have hlive : (j.followers.filter fun f => decide (now < f.due)).length +
        (j.followers.filter fun f => decide (f.due ≤ now)).length = j.followers.length := by
      have hperm := (List.filter_append_perm (fun f : Follower => decide (now < f.due))
        j.followers).length_eq
      rwa [List.length_append, ← filter_expired] at hperm
    simp only [expireFollowers, List.length_append, List.length_map]
    omega
  active hfollowers := h.active fun hnil => hfollowers (by simp [expireFollowers, hnil])
  through follower hmem := h.through follower (List.mem_of_mem_filter hmem)

theorem invalidate (reason : Invalidation) : Accounted (j.invalidateInner reason) := by
  unfold invalidateInner
  split
  · exact h
  exact
    { inflight := by
        have hall := h.inflight
        simp only [charged, tally_append, tally_abort, tally_nil] at hall ⊢
        omega
      inflight_le := h.inflight_le
      positions := fun hstate => absurd rfl hstate
      suffix := rfl
      suffix_le := Nat.zero_le _
      followers_le := by
        have hle := h.followers_le
        simp only [List.length_append, List.length_map, List.length_nil]
        omega
      active := fun hnil => absurd rfl hnil
      through := fun _ hmem => absurd hmem List.not_mem_nil }

theorem record (cuts : List NativeCut) (identity : DeltaIdentity) (effect : List UInt8)
    (hroom : j.suffixBytes + (identity.size + effect.length) ≤ j.config.maxSuffixBytes) :
    Accounted { j with
      cuts := cuts
      lastPosition := j.lastPosition + 1
      suffixBytes := j.suffixBytes + (identity.size + effect.length)
      deltas := j.deltas ++ [⟨j.lastPosition + 1, identity, effect⟩] } where
  __ := h
  positions hstate := by
    rw [List.map_append, h.positions hstate, List.range'_1_concat, Nat.add_comm 1]
    rfl
  suffix := by
    have hall := h.suffix
    simp only [tally_append, tally_cons, tally_nil, JournalDelta.bytes]
    omega
  suffix_le := hroom
  through follower hmem batch hbatch :=
    (h.through follower hmem batch hbatch).trans (Nat.le_succ _)

theorem reserve (next : Nat) (hactive : j.state = .active) (hnone : follower.outstanding = none)
    (hroom : j.followers.length + j.aborted.length < j.config.maxFollowers) :
    Accounted { j with nextReservation := next, followers := j.followers ++ [follower] } where
  __ := h
  inflight := by
    have hall := h.inflight
    simp only [charged, tally_append, tally_cons, tally_nil, hnone, batchBytes] at hall ⊢
    omega
  followers_le := by
    simp only [List.length_append, List.length_singleton]
    omega
  active _ := hactive
  through f hmem batch hbatch := by
    rcases List.mem_append.mp hmem with hmem | hmem
    · exact h.through f hmem batch hbatch
    · rw [List.mem_singleton.mp hmem, hnone] at hbatch
      cases hbatch

theorem replace {follower' : Follower} (hfollower : j.followers[index]? = some follower)
    (hroom : batchBytes follower'.outstanding ≤ batchBytes follower.outstanding ∨
      j.inflightBytes + batchBytes follower'.outstanding ≤
        j.config.maxInflightBytes + batchBytes follower.outstanding)
    (hthrough : ∀ batch, follower'.outstanding = some batch →
      follower.outstanding = some batch ∨ batch.through ≤ j.lastPosition) :
    Accounted { j.setFollower index follower' with
      inflightBytes := j.inflightBytes + batchBytes follower'.outstanding -
        batchBytes follower.outstanding } where
  __ := h
  inflight := by
    have hall := h.inflight
    have hset : tally (fun f : Follower => batchBytes f.outstanding)
          (j.followers.set index follower') + batchBytes follower.outstanding =
        tally (fun f : Follower => batchBytes f.outstanding) j.followers +
          batchBytes follower'.outstanding := tally_set follower' hfollower
    simp only [charged, setFollower] at hall ⊢
    omega
  inflight_le := by
    have hle := h.inflight_le
    simp only [setFollower]
    omega
  followers_le := by
    simp only [setFollower, List.length_set]
    exact h.followers_le
  active _ := h.active (List.ne_nil_of_mem (List.mem_of_getElem? hfollower))
  through f hmem batch hbatch := by
    rcases List.mem_or_eq_of_mem_set hmem with hmem | rfl
    · exact h.through f hmem batch hbatch
    rcases hthrough batch hbatch with hold | hnew
    · exact h.through follower (List.mem_of_getElem? hfollower) batch hold
    · exact hnew

theorem release {index : Nat} {follower : Follower}
    (hfollower : j.followers[index]? = some follower) :
    Accounted { j with
      followers := j.followers.eraseIdx index
      inflightBytes := j.inflightBytes - batchBytes follower.outstanding } where
  __ := h
  inflight := by
    have hall := h.inflight
    have herase : tally (fun f : Follower => batchBytes f.outstanding)
          (j.followers.eraseIdx index) + batchBytes follower.outstanding =
        tally (fun f : Follower => batchBytes f.outstanding) j.followers :=
      tally_eraseIdx hfollower
    simp only [charged] at hall ⊢
    omega
  inflight_le := (Nat.sub_le _ _).trans h.inflight_le
  followers_le := by
    have hle := h.followers_le
    have hlength := (List.eraseIdx_sublist j.followers index).length_le
    simp only
    omega
  active _ := h.active (List.ne_nil_of_mem (List.mem_of_getElem? hfollower))
  through f hmem := h.through f (List.mem_of_mem_eraseIdx hmem)

theorem notify : Accounted { j with aborted := j.aborted.map ({ · with notified := true }) } where
  __ := h
  inflight := by
    rw [h.inflight]
    simp only [charged, tally, List.map_map]
    rfl
  followers_le := by
    simp only [List.length_map]
    exact h.followers_le

theorem retire {index : Nat} {aborted : AbortedFollower}
    (haborted : j.aborted[index]? = some aborted) :
    Accounted { j with
      aborted := j.aborted.eraseIdx index
      inflightBytes := j.inflightBytes - batchBytes aborted.outstanding } where
  __ := h
  inflight := by
    have hall := h.inflight
    have herase : tally (fun a : AbortedFollower => batchBytes a.outstanding)
          (j.aborted.eraseIdx index) + batchBytes aborted.outstanding =
        tally (fun a : AbortedFollower => batchBytes a.outstanding) j.aborted :=
      tally_eraseIdx haborted
    simp only [charged] at hall ⊢
    omega
  inflight_le := (Nat.sub_le _ _).trans h.inflight_le
  followers_le := by
    have hle := h.followers_le
    have hlength := (List.eraseIdx_sublist j.aborted index).length_le
    simp only
    omega

theorem move (hm : Move j j') : Accounted j' := by
  cases hm with
  | aside ha => exact h.aside ha
  | expire now => exact h.expire now
  | invalidate reason => exact h.invalidate reason
  | record cuts identity effect _ hroom => exact h.record cuts identity effect hroom
  | reserve next follower hactive hnone hroom => exact h.reserve next hactive hnone hroom
  | replace follower' hfollower hroom hthrough => exact h.replace hfollower hroom hthrough
  | release hfollower => exact h.release hfollower
  | notify => exact h.notify
  | retire haborted => exact h.retire haborted

theorem moves (hm : Relation.ReflTransGen Move j j') : Accounted j' := by
  induction hm with
  | refl => exact h
  | tail _ hmove ih => exact ih.move hmove

/-- A live follower's batch is within what is in flight. -/
theorem follower_le (hmem : follower ∈ j.followers) :
    batchBytes follower.outstanding ≤ j.inflightBytes := by
  have hle : batchBytes follower.outstanding ≤
      tally (fun f : Follower => batchBytes f.outstanding) j.followers :=
    @le_tally _ (fun f : Follower => batchBytes f.outstanding) _ _ hmem
  rw [h.inflight]
  exact hle.trans (Nat.le_add_right _ _)

theorem aborted_le {aborted : AbortedFollower} (hmem : aborted ∈ j.aborted) :
    batchBytes aborted.outstanding ≤ j.inflightBytes := by
  have hle : batchBytes aborted.outstanding ≤
      tally (fun a : AbortedFollower => batchBytes a.outstanding) j.aborted :=
    @le_tally _ (fun a : AbortedFollower => batchBytes a.outstanding) _ _ hmem
  rw [h.inflight]
  exact hle.trans (Nat.le_add_left _ _)

end

end Accounted

section New

variable {layout : Layout} {alloc : Allocator} {config : JournalConfig} {id : CaptureId}
  {domainSlots partitionSlots : Nat}

theorem accounted_new (h : new layout alloc config id domainSlots partitionSlots = .ok j) :
    Accounted j := by
  unfold new at h
  split at h
  · cases h
  split at h
  · cases h
  split at h
  · cases h
  cases h
  exact ⟨rfl, Nat.zero_le _, fun _ => rfl, rfl, Nat.zero_le _, Nat.zero_le _,
    fun hnil => absurd rfl hnil, fun _ hmem => absurd hmem List.not_mem_nil⟩

theorem config_new (h : new layout alloc config id domainSlots partitionSlots = .ok j) :
    j.config = config := by
  unfold new at h
  split at h
  · cases h
  split at h
  · cases h
  split at h
  · cases h
  · cases h
    rfl

end New

end DonorJournal

end Groupnet.Bootstrap
