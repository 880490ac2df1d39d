import Groupnet.Lib.Machine
import Groupnet.Replication.Table

/-!
# Superseded responses

A completion is taken only for an operation the session still waits for.  Any other one is
turned down and changes nothing: whatever generation, session or attempt it comes from.  This
is enough to tell completions apart, since no operation is handed out twice: those of a run
are as many as the tokens it took.
-/

namespace Groupnet.Replication

def Event.op? : Event → Option Operation
  | .subscriberTail op .. | .subscriberScanned op .. | .subscriberApplied op ..
  | .subscriberAcked op .. | .subscriberAckRead op .. | .subscriberTerminalCommitted op ..
  | .subscriberTerminalRead op .. | .currentSubscriberRead op .. | .subscriberRejected op ..
  | .subscriberRegistered op .. | .subscriberRegistrationRead op .. | .sinkEpochBound op ..
  | .ackChecked op | .ackAuthorityLost op | .cancelAckWait op | .snapshotHeld op ..
  | .snapshotOffered op .. | .snapshotOpened op .. | .snapshotRead op .. | .snapshotWritten op ..
  | .snapshotVerified op .. | .snapshotBarrier op .. | .snapshotScanned op ..
  | .snapshotApplied op .. | .snapshotSealed op .. | .snapshotInstalled op ..
  | .snapshotAttached op .. | .snapshotCleaned op | .snapshotDiscarded op ..
  | .checkpointLoaded op .. | .checkpointInstalled op .. | .tail op .. | .scanned op ..
  | .applied op .. | .invalidated op | .failed op => some op
  | .ackObserved evidence => some evidence.op
  | _ => none

namespace SessionEngine

variable {e : SessionEngine} {op : Operation}

structure Awaits (e : SessionEngine) (op : Operation) : Prop where
  of ::
  any : e.currentOperation = some op ∨ e.revokeOp = some op ∨
    e.snapshotCleanup.map CleanupState.op = some op ∨
    e.ackWait.map AckWait.op = some op ∨ e.ackWait.bind AckWait.pollOp = some op

section

variable (h : e.currentOperation ≠ some op)

include h

theorem matchesOp_of_ne {stage : Stage} : e.matchesOp op stage = false := by
  unfold matchesOp
  have hne : e.outstanding ≠ some (op, stage) := fun ho => h (congrArg (Option.map Prod.fst) ho)
  simp [hne]

theorem failing_of_ne : e.failing op = none := by
  unfold failing
  cases ho : e.outstanding with
  | none => rfl
  | some current =>
    have hne : current.1 ≠ op := fun hop => h (by rw [currentOperation, ho, Option.map_some, hop])
    simp [hne]

theorem onSnapshot_of_ne {stage : Stage} {next : SnapshotProgress → Outcome} :
    e.onSnapshot op stage next = reject e .staleOperation := by
  unfold onSnapshot snapshotLive
  rw [matchesOp_of_ne h]
  rfl

theorem failed_of_ne (hc : e.snapshotCleanup.map CleanupState.op ≠ some op) :
    e.failed op = reject e .staleOperation := by
  have hcleanup : e.snapshotCleanup.any (·.op = op) = false := by
    cases hs : e.snapshotCleanup with
    | none => rfl
    | some cleanup =>
      rw [hs] at hc
      simpa using fun ho => hc (congrArg some ho)
  have hout : e.outstanding.all (·.1 ≠ op) = true := by
    cases ho : e.outstanding with
    | none => rfl
    | some current =>
      simpa using fun hop => h (by rw [currentOperation, ho, Option.map_some, hop])
  unfold failed
  simp only [failSubscriberTerminal, failSubscriptionDelivery, failSubscription, failing_of_ne h,
    hcleanup]
  exact if_pos hout

end

theorem cleanup_of_ne (h : e.snapshotCleanup.map CleanupState.op ≠ some op) :
    e.snapshotCleaned op = reject e .staleOperation ∧
      ∀ disposition, e.snapshotDiscarded op disposition = reject e .staleOperation := by
  unfold snapshotCleaned snapshotDiscarded
  cases hs : e.snapshotCleanup with
  | none => exact ⟨rfl, fun _ => rfl⟩
  | some cleanup =>
    rw [hs] at h
    have hne : cleanup.op ≠ op := fun ho => h (congrArg some ho)
    exact ⟨if_pos (.inl hne), fun _ => if_pos (.inl hne)⟩

theorem poll_of_ne (h : e.ackWait.bind AckWait.pollOp ≠ some op) :
    e.ackChecked op = reject e .staleOperation ∧
      ∀ evidence : AckEvidence, evidence.op = op →
        e.observeAck evidence = reject e .staleOperation := by
  unfold ackChecked observeAck
  cases hw : e.ackWait with
  | none => exact ⟨rfl, fun _ _ => rfl⟩
  | some wait =>
    rw [hw] at h
    refine ⟨if_pos h, ?_⟩
    rintro evidence rfl
    exact if_pos h

theorem endAckWait_of_ne {stop : AckWait → AckWait} (h : e.ackWait.map AckWait.op ≠ some op) :
    e.endAckWait op stop = reject e .staleOperation := by
  unfold endAckWait
  cases hw : e.ackWait with
  | none => rfl
  | some wait =>
    rw [hw] at h
    exact if_pos fun ho => h (congrArg some ho.symm)

theorem subscriberRejected_of_ne {error : SubscriptionError} (h : e.currentOperation ≠ some op) :
    e.subscriberRejected op error = reject e .staleOperation := by
  unfold subscriberRejected
  split
  · rename_i current stage progress ho _
    exact if_pos (.inl fun hop => h (by rw [currentOperation, ho, Option.map_some, hop]))
  · rfl

/-- An event about an operation that is not awaited is turned down and nothing else happens. -/
theorem step_of_not_awaits {event : Event} (hop : event.op? = some op) (h : ¬ e.Awaits op) :
    ∃ reason, e.step event = reject e reason := by
  have hall := fun hany => h (.of hany)
  simp only [imp_false, not_or] at hall
  obtain ⟨hcur, hrevoke, hcleanup, hwait, hpoll⟩ := hall
  have hm {stage : Stage} : e.matchesOp op stage = false := matchesOp_of_ne hcur
  cases event <;> cases hop
  case failed => exact ⟨_, failed_of_ne hcur hcleanup⟩
  case invalidated => exact ⟨_, if_pos (.inl hrevoke)⟩
  -- the cleanup of a snapshot
  case snapshotCleaned => exact ⟨_, (cleanup_of_ne hcleanup).1⟩
  case snapshotDiscarded disposition => exact ⟨_, (cleanup_of_ne hcleanup).2 disposition⟩
  -- the wait for named acknowledgements and its poll
  case ackObserved evidence => exact ⟨_, (poll_of_ne hpoll).2 evidence rfl⟩
  case ackChecked => exact ⟨_, (poll_of_ne hpoll).1⟩
  case ackAuthorityLost => exact ⟨_, endAckWait_of_ne hwait⟩
  case cancelAckWait => exact ⟨_, endAckWait_of_ne hwait⟩
  -- a check that is kept apart from its transition
  case checkpointLoaded cursor payloadId =>
      have hstale : e.acceptCheckpoint op cursor payloadId = .error .staleOperation := if_pos hm
      exact ⟨.staleOperation, by simp only [step, checkpointLoaded, hstale]⟩
  case scanned batch =>
      have hstale : e.acceptBatch op batch = .error .staleOperation := if_pos hm
      exact ⟨.staleOperation, by simp only [step, scanned, hstale]⟩
  case subscriberTail proof comparisons =>
      have hstale : e.acceptSubscriberTail op proof comparisons = .error .staleOperation :=
        if_pos hm
      exact ⟨.staleOperation, by simp only [step, subscriberTail, hstale]⟩
  case subscriberScanned batch =>
      have hstale : e.acceptSubscriberBatch op batch = .error .staleOperation := if_pos hm
      exact ⟨.staleOperation, by simp only [step, subscriberScanned, hstale]⟩
  case subscriberApplied receipt throughToSink previousToSink =>
      have hstale : e.acceptDelivery op receipt throughToSink previousToSink =
          .error .staleOperation :=
        if_pos hm
      exact ⟨.staleOperation, by simp only [step, subscriberApplied, hstale]⟩
  case subscriberRejected error => exact ⟨_, subscriberRejected_of_ne hcur⟩
  case subscriberTerminalCommitted receipt => exact ⟨_, if_pos ⟨hm, hm⟩⟩
  -- a step of a snapshot attempt
  all_goals first
    | exact ⟨_, onSnapshot_of_ne hcur⟩
    | exact ⟨_, if_pos hm⟩

/-! ## Operations of a whole run -/

theorem sound_of_new {slack : Prop} {scope : Scope} {mode : Mode} {config : Config}
    {sessionId : Nat} (h : new scope mode config sessionId = .ok e) :
    (Sound slack e ∧ e.base.Known) ∧ e.nextToken = 1 ∧ e.ackWait = none := by
  unfold new at h
  split at h
  · cases h
  split at h
  · cases h
  split at h
  · cases h
  rename_i hscope
  cases h
  refine ⟨⟨.rest ⟨rfl, rfl, rfl, rfl, attached_of_none rfl, ⟨hscope, ?_, ?_, ?_, ?_⟩⟩ rfl,
    ?_, nofun, ?_⟩, rfl, rfl⟩
  · exact fun hp => nomatch hp
  · exact fun hp => nomatch hp
  · exact fun hp => nomatch hp
  · exact fun _ hp => nomatch hp
  · show 1 ≤ u64Max
    decide
  · rintro _ (h | h | h) <;> cases h

theorem sound_of_step {slack : Prop} {e' : SessionEngine} {event : Event} {s : Step}
    (h : Sound slack e ∧ e.base.Known) (hslack : e.slips event = true → slack)
    (hstep : e.step event = some (e', s)) : Sound slack e' ∧ e'.base.Known :=
  have hgood := sound_step h.1 event hslack _ hstep
  ⟨hgood.sound h.2, (hgood.turn h.2).known h.2⟩

/-- The operations the effects of a run hand out. -/
def issuedIn (e : SessionEngine) : List Event → List Operation
  | [] => []
  | event :: events =>
    match e.step event with
    | none => []
    | some (e', s) => issued e.base.cleanupOp s.effects ++ e'.issuedIn events

theorem hands_of_drive {e₀ : SessionEngine} {events : List Event} {steps : List Step}
    (h : Sound True e₀ ∧ e₀.base.Known) (hrun : drive step e₀ events = some (e, steps)) :
    Hands e₀.base e.base (e₀.issuedIn events) := by
  induction events generalizing e₀ steps with
  | nil =>
    cases hrun
    exact .refl (.of_eq rfl) h.2
  | cons event events ih =>
    obtain ⟨e₁, answer, rest, hstep, hrest, rfl⟩ := drive_cons_eq_some hrun
    have hturn := (sound_step h.1 event (fun _ => trivial) _ hstep).turn h.2
    rw [issuedIn, hstep]
    exact hturn.trans (ih (sound_of_step h (fun _ => trivial) hstep) hrest) h.2

/-- In every state a session can reach, an event about an operation it does not wait for is
turned down, has no effect and leaves the whole engine as it is.  And no two operations of a
run are equal: those its effects hand out, with that of a wait for acknowledgements still to
be answered.  These are all operations, one for each token that is gone. -/
theorem superseded_responses_inert {scope : Scope} {mode : Mode} {config : Config} {sessionId : Nat}
    {e₀ : SessionEngine} {events : List Event} {steps : List Step}
    (hnew : new scope mode config sessionId = .ok e₀)
    (hrun : drive step e₀ events = some (e, steps)) :
    (∀ event op, event.op? = some op → ¬ e.Awaits op →
      ∃ reason, e.step event = some (e, ⟨[], some reason⟩)) ∧
    (e₀.issuedIn events ++ (e.ackWait.map AckWait.op).toList).Nodup ∧
    (e₀.issuedIn events ++ (e.ackWait.map AckWait.op).toList).length + 1 = spentAt e.nextToken := by
  obtain ⟨hsound, htoken, hwait⟩ := sound_of_new hnew
  have hands := hands_of_drive hsound hrun
  refine ⟨fun _ _ hop h => step_of_not_awaits hop h, ?_, ?_⟩
  · refine List.nodup_append'.mpr ⟨hands.nodup, Option.toList_nodup _, fun op hop hpending => ?_⟩
    exact (hands.wait op (Option.mem_toList.mp hpending)).1 hop
  · have hcount := hands.count
    have hnone : e₀.base.waitOp = none := congrArg (Option.map AckWait.op) hwait
    rw [show e₀.base.nextToken = 1 from htoken, hnone] at hcount
    rw [List.length_append]
    exact hcount

/-- A session that is superseded while it loads its checkpoint does not hear the answer. -/
theorem superseded_responses_inert_loading :
    ∃ e₀ e steps, new ⟨⟨"g", "t", "k"⟩, "p"⟩ .stateSync .default 1 = .ok e₀ ∧
      drive step e₀ [.startBootstrap, .supersede] = some (e, steps) ∧
      e₀.issuedIn [.startBootstrap, .supersede] = [⟨1, 1, 1⟩] ∧ e.nextToken = 2 ∧
      ∃ reason, e.step (.failed ⟨1, 1, 1⟩) = some (e, ⟨[], some reason⟩) := by
  refine ⟨_, _, _, rfl, rfl, rfl, rfl, ?_⟩
  have h := @superseded_responses_inert _ ⟨⟨"g", "t", "k"⟩, "p"⟩ .stateSync .default 1 _
    [.startBootstrap, .supersede] _ rfl rfl
  refine h.1 _ _ rfl fun hawaits => ?_
  rcases hawaits.any with h | h | h | h | h <;> cases h

end SessionEngine

end Groupnet.Replication
