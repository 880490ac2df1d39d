import Groupnet.Lib.Partial
import Groupnet.Replication.Session

/-!
# Turns

What every call of a session has in common: each operation it hands out is new, and it hands
out one for each token it takes.

A turn is judged by a few fields of the engine it starts from.  So a call that first notes
something down elsewhere is the same turn as one that does not.
-/

namespace Groupnet.Replication

/-- The operation an effect is about. -/
def Effect.names? : Effect → Option Operation
  | .checkSubscriberTail op .. | .scanSubscriber op .. | .applySubscriberBatch op ..
  | .commitSubscriberAck op .. | .readSubscriberAck op .. | .commitSubscriberTerminal op ..
  | .readSubscriberTerminal op .. | .readCurrentSubscriber op .. | .registerSubscriber op ..
  | .readSubscriberRegistration op .. | .bindSinkEpoch op .. | .observeNamedAcks op ..
  | .ackWaitFinished op .. | .acquireSnapshotHold op .. | .offerSnapshot op ..
  | .openSnapshotStage op .. | .readSnapshotChunk op .. | .writeSnapshotChunk op ..
  | .verifySnapshotImage op .. | .snapshotReplayBarrier op .. | .snapshotScan op ..
  | .snapshotApply op .. | .sealSnapshotStage op .. | .installSnapshot op .. | .attachSnapshot op ..
  | .cleanupSnapshot op .. | .loadCheckpoint op .. | .installCheckpoint op .. | .checkTail op ..
  | .scan op .. | .apply op .. | .revokeServing op | .discardSnapshotResources op .. => some op
  | _ => none

/-- The operation an effect hands out.  The disposal of a snapshot may repeat one: that of the
cleanup it ends, or that of the attempt itself when no other is left. -/
def Effect.issues? (cleanupOp : Option Operation) : Effect → Option Operation
  | .discardSnapshotResources op attempt _ =>
    if op = attempt ∨ cleanupOp = some op then none else some op
  | effect => effect.names?

/-- The operations handed out by the effects of an engine that cleans up under `cleanupOp`. -/
def issued (cleanupOp : Option Operation) (effects : List Effect) : List Operation :=
  effects.filterMap (Effect.issues? cleanupOp)

theorem issued_append (c : Option Operation) (fx gx : List Effect) :
    issued c (fx ++ gx) = issued c fx ++ issued c gx := List.filterMap_append

theorem Mode.gapEffect_issues (mode : Mode) (c : Option Operation) :
    mode.gapEffect.issues? c = none := by
  cases mode <;> rfl

/-- All tokens below this one are gone when the counter is at `n`. -/
def spentAt (n : Nat) : Nat := if n = 0 then u64Max + 1 else n

/-- The fields a turn is judged by. -/
structure Base where
  nextToken : Nat
  waitOp : Option Operation
  cleanupOp : Option Operation
  /-- The attempt in progress. -/
  holdOp : Option Operation
  /-- The attempt that is attached. -/
  liveOp : Option Operation

def SessionEngine.base (e : SessionEngine) : Base :=
  ⟨e.nextToken, e.ackWait.map AckWait.op, e.snapshotCleanup.map CleanupState.op,
    e.snapshot.bind SnapshotProgress.attempt, e.liveAttachmentAttempt⟩

namespace Base

/-- The operations the disposal of a snapshot may repeat. -/
def Holds (a : Base) (op : Operation) : Prop :=
  a.cleanupOp = some op ∨ a.holdOp = some op ∨ a.liveOp = some op

/-- The counter is a word, and what is kept took its operation from it. -/
structure Known (a : Base) : Prop where
  cap : a.nextToken ≤ u64Max
  wait : ∀ op, a.waitOp = some op → op.token < spentAt a.nextToken
  held : ∀ op, a.Holds op → op.token < spentAt a.nextToken

/-- At most some of what `a` holds is gone. -/
structure Below (b a : Base) : Prop where
  token : b.nextToken = a.nextToken
  wait : b.waitOp = a.waitOp
  held : ∀ op, b.Holds op → a.Holds op

theorem Below.of_eq {a b : Base} (h : b = a) : b.Below a := h ▸ ⟨rfl, rfl, fun _ => id⟩

theorem Below.known {a b : Base} (h : b.Below a) (ha : a.Known) : b.Known where
  cap := h.token ▸ ha.cap
  wait op hop := h.token ▸ ha.wait op (h.wait ▸ hop)
  held op hop := h.token ▸ ha.held op (h.held op hop)

/-- An operation handed out between two counters. -/
def Fresh (a b : Base) (op : Operation) : Prop :=
  spentAt a.nextToken ≤ op.token ∧ op.token < spentAt b.nextToken

end Base

/-- What a turn hands out: new operations, or the one of the wait it ends, none of them twice
and one for each token that is gone. -/
structure Hands (a b : Base) (ops : List Operation) : Prop where
  cap : b.nextToken ≤ u64Max
  le : spentAt a.nextToken ≤ spentAt b.nextToken
  fresh : ∀ op ∈ ops, a.waitOp = some op ∨ a.Fresh b op
  nodup : ops.Nodup
  wait : ∀ op, b.waitOp = some op → op ∉ ops ∧ (a.waitOp = some op ∨ a.Fresh b op)
  held : ∀ op, b.Holds op → a.Holds op ∨ a.Fresh b op
  count : ops.length + b.waitOp.toList.length + spentAt a.nextToken =
    spentAt b.nextToken + a.waitOp.toList.length

namespace Hands

variable {a b c : Base} {ops ops' : List Operation}

theorem refl (h : b.Below a) (ha : a.Known) : Hands a b [] where
  cap := h.token ▸ ha.cap
  le := h.token ▸ Nat.le_refl _
  fresh _ hop := absurd hop List.not_mem_nil
  nodup := List.nodup_nil
  wait _ hop := ⟨List.not_mem_nil, .inl (h.wait ▸ hop)⟩
  held op hop := .inl (h.held op hop)
  count := by rw [h.token, h.wait, List.length_nil, Nat.zero_add, Nat.add_comm]

theorem known (h : Hands a b ops) (ha : a.Known) : b.Known where
  cap := h.cap
  wait op hop := by
    rcases (h.wait op hop).2 with hw | hf
    · exact Nat.lt_of_lt_of_le (ha.wait op hw) h.le
    · exact hf.2
  held op hop := by
    rcases h.held op hop with hh | hf
    · exact Nat.lt_of_lt_of_le (ha.held op hh) h.le
    · exact hf.2

/-- An operation that is still to come was not named. -/
theorem not_mem_of_le (h : Hands a b ops) (ha : a.Known) {op : Operation}
    (hop : spentAt b.nextToken ≤ op.token) : op ∉ ops := by
  intro hin
  rcases h.fresh op hin with hw | hf
  · exact absurd (Nat.lt_of_lt_of_le (ha.wait op hw) (h.le.trans hop)) (Nat.lt_irrefl _)
  · exact absurd (Nat.lt_of_lt_of_le hf.2 hop) (Nat.lt_irrefl _)

theorem trans (h : Hands a b ops) (h' : Hands b c ops') (ha : a.Known) :
    Hands a c (ops ++ ops') where
  cap := h'.cap
  le := h.le.trans h'.le
  fresh op hop := by
    rcases List.mem_append.mp hop with hop | hop
    · exact (h.fresh op hop).imp_right fun hf => ⟨hf.1, Nat.lt_of_lt_of_le hf.2 h'.le⟩
    rcases h'.fresh op hop with hw | hf
    · exact (h.wait op hw).2.imp_right fun hf => ⟨hf.1, Nat.lt_of_lt_of_le hf.2 h'.le⟩
    · exact .inr ⟨h.le.trans hf.1, hf.2⟩
  nodup := by
    refine List.nodup_append'.mpr ⟨h.nodup, h'.nodup, fun op hop hop' => ?_⟩
    rcases h'.fresh op hop' with hw | hf
    · exact (h.wait op hw).1 hop
    · exact h.not_mem_of_le ha hf.1 hop
  wait op hop := by
    rw [List.mem_append, not_or]
    obtain ⟨hout, hw | hf⟩ := h'.wait op hop
    · obtain ⟨hout', hw'⟩ := h.wait op hw
      exact ⟨⟨hout', hout⟩, hw'.imp_right fun hf => ⟨hf.1, Nat.lt_of_lt_of_le hf.2 h'.le⟩⟩
    · exact ⟨⟨h.not_mem_of_le ha hf.1, hout⟩, .inr ⟨h.le.trans hf.1, hf.2⟩⟩
  held op hop := by
    rcases h'.held op hop with hh | hf
    · exact (h.held op hh).imp_right fun hf => ⟨hf.1, Nat.lt_of_lt_of_le hf.2 h'.le⟩
    · exact .inr ⟨h.le.trans hf.1, hf.2⟩
  count := by
    have hcount := h.count
    have hcount' := h'.count
    rw [List.length_append]
    omega

/-- The same turn from a state that held more. -/
theorem weaken (h : Hands a b ops) (hb : a.Below c) : Hands c b ops := by
  obtain ⟨hcap, hle, hfresh, hnodup, hwait, hheld, hcount⟩ := h
  unfold Base.Fresh at hfresh hwait hheld
  rw [hb.token] at hle hfresh hwait hheld hcount
  rw [hb.wait] at hfresh hwait hcount
  exact ⟨hcap, hle, hfresh, hnodup, hwait, fun op hop => (hheld op hop).imp_left (hb.held op),
    hcount⟩

theorem perm (h : Hands a b ops) (hp : ops.Perm ops') : Hands a b ops' where
  __ := h
  fresh op hop := h.fresh op (hp.mem_iff.mpr hop)
  nodup := hp.nodup_iff.mp h.nodup
  wait op hop := ⟨fun hin => (h.wait op hop).1 (hp.mem_iff.mpr hin), (h.wait op hop).2⟩
  count := hp.length_eq ▸ h.count

end Hands

/-- One turn, from the fields `a`. -/
def Turn (a : Base) (r : SessionEngine × Step) : Prop :=
  a.Known → Hands a r.1.base (issued a.cleanupOp r.2.effects)

namespace Turn

variable {a : Base} {e e' : SessionEngine} {s : Step}

/-- A turn that hands nothing out and lets go of what it held, if anything. -/
theorem loose (h : e'.base.Below a) (hfx : issued a.cleanupOp s.effects = []) : Turn a (e', s) :=
  fun ha => hfx ▸ .refl h ha

/-- A turn that hands nothing out. -/
theorem quiet (h : e'.base = a) (hfx : issued a.cleanupOp s.effects = []) : Turn a (e', s) :=
  loose (.of_eq h) hfx

/-- The same turn from a state that held more, if it hands out the same there. -/
theorem weaken {c : Base} {r : SessionEngine × Step} (h : Turn a r) (hb : a.Below c)
    (hfx : issued a.cleanupOp r.2.effects = issued c.cleanupOp r.2.effects) : Turn c r :=
  fun ha => hfx ▸ (h (hb.known ha)).weaken hb

/-- One turn after another. -/
theorem trans {t : Step} (h : Turn a (e, s)) (s' : Step) (h' : Turn e.base (e', s'))
    (hp : (issued a.cleanupOp s.effects ++ issued e.base.cleanupOp s'.effects).Perm
      (issued a.cleanupOp t.effects)) : Turn a (e', t) :=
  fun ha => ((h ha).trans (h' ((h ha).known ha)) ha).perm hp

/-- Effects that hand out nothing may be added, and what a turn is not judged by may change. -/
theorem map {t : Step} (h : Turn a (e, s)) (hb : e'.base = e.base)
    (hp : issued a.cleanupOp s.effects = issued a.cleanupOp t.effects) : Turn a (e', t) :=
  fun ha => hp ▸ hb ▸ h ha

end Turn

/-- The counter after one more token. -/
def bump (n : Nat) : Nat := (checkedAdd u64Max n 1).getD 0

theorem spentAt_bump {n : Nat} (h : n ≠ 0) (hn : n ≤ u64Max) :
    spentAt (bump n) = spentAt n + 1 := by
  unfold bump checkedAdd spentAt
  split
  · simp [h]
  · simp only [Option.getD_none, if_pos]
    omega

theorem bump_le {n : Nat} : bump n ≤ u64Max := by
  unfold bump checkedAdd
  split
  · assumption
  · exact Nat.zero_le _

/-- A token still to come is of no operation that is kept. -/
theorem Base.Known.ne {a : Base} (h : a.Known) (hn : a.nextToken ≠ 0) {op op' : Operation}
    (hop : op.token = a.nextToken) (hheld : a.Holds op') : op' ≠ op := by
  rintro rfl
  have hlt := h.held _ hheld
  rw [spentAt, if_neg hn, hop] at hlt
  exact Nat.lt_irrefl _ hlt

/-- A turn that takes one token and hands out its operation, and may keep it. -/
theorem Turn.kept {a : Base} {e' : SessionEngine} {s : Step} (op : Operation)
    (ht : e'.base.nextToken = bump a.nextToken) (hw : e'.base.waitOp = a.waitOp)
    (hheld : ∀ op', e'.base.Holds op' → a.Holds op' ∨ op' = op) (hn : a.nextToken ≠ 0)
    (hop : op.token = a.nextToken) (hfx : a.Known → issued a.cleanupOp s.effects = [op]) :
    Turn a (e', s) := by
  intro ha
  have hlt := spentAt_bump hn ha.cap
  have hself : a.Fresh e'.base op := by
    rw [Base.Fresh, ht, hlt, hop, spentAt, if_neg hn]
    exact ⟨Nat.le_refl _, Nat.lt_succ_self _⟩
  rw [hfx ha]
  refine ⟨ht ▸ bump_le, ?_, ?_, List.nodup_singleton _, ?_, ?_, ?_⟩
  · rw [ht, hlt]
    exact Nat.le_succ _
  · intro op' hop'
    exact .inr (List.mem_singleton.mp hop' ▸ hself)
  · intro op' hop'
    rw [hw] at hop'
    refine ⟨?_, .inl hop'⟩
    rw [List.mem_singleton]
    rintro rfl
    exact absurd (Nat.lt_of_lt_of_le (ha.wait _ hop') hself.1) (Nat.lt_irrefl _)
  · intro op' hop'
    rcases hheld op' hop' with hheld | rfl
    · exact .inl hheld
    · exact .inr hself
  · rw [ht, hw, hlt, List.length_singleton]
    omega

/-- A turn that takes one token and hands out its operation. -/
theorem Turn.spent {a : Base} {e' : SessionEngine} {s : Step} (op : Operation)
    (h : e'.base = { a with nextToken := bump a.nextToken }) (hn : a.nextToken ≠ 0)
    (hop : op.token = a.nextToken) (hfx : issued a.cleanupOp s.effects = [op]) :
    Turn a (e', s) := by
  refine .kept op (h ▸ rfl) (h ▸ rfl) ?_ hn hop fun _ => hfx
  rw [h]
  exact fun _ => .inl

namespace AckWait

variable {wait : AckWait} {now : Time}

theorem finishWith_op {outcome : AckWaitOutcome} : (wait.finishWith outcome).op = wait.op := by
  unfold finishWith
  split <;> rfl

theorem authorityLost_op (wait : AckWait) : wait.authorityLost.op = wait.op := finishWith_op

theorem cancel_op (wait : AckWait) : wait.cancel.op = wait.op := finishWith_op

theorem tick_op (wait : AckWait) : (wait.tick now).op = wait.op := by
  unfold tick
  split <;> rfl

theorem poll_op (wait : AckWait) (op : Operation) (now due : Time) :
    (wait.poll op now due).1.op = wait.op := by
  unfold poll
  split <;> rfl

theorem expirePoll_op : (wait.expirePoll now).op = wait.op := by
  unfold expirePoll
  split <;> rfl

theorem checked_op (wait : AckWait) (op : Operation) (now : Time) :
    (wait.checked op now).1.op = wait.op := by
  unfold checked
  dsimp only
  split
  · exact wait.tick_op
  · split <;> exact wait.tick_op

theorem observe_op {evidence : AckEvidence} {r : AckWait × Option AckWaitError}
    (h : wait.observe evidence now = some r) : r.1.op = wait.op := by
  unfold observe at h
  dsimp only at h
  split at h
  · cases h
    exact wait.tick_op
  split at h
  · cases h
    exact wait.tick_op
  split at h
  · cases h
    exact wait.tick_op
  obtain ⟨accepted, -, h⟩ := Option.bind_eq_some_iff.mp h
  split at h
  · cases h
    exact wait.tick_op
  cases h
  dsimp only
  split <;> exact wait.tick_op

end AckWait

/-- A turn that ends the wait. -/
theorem Turn.finished {a : Base} {e' : SessionEngine} {s : Step} (op : Operation)
    (h : e'.base = { a with waitOp := none }) (hop : a.waitOp = some op)
    (hfx : issued a.cleanupOp s.effects = [op]) : Turn a (e', s) := by
  intro ha
  rw [hfx, h]
  refine ⟨ha.cap, Nat.le_refl _, ?_, List.nodup_singleton _, (fun _ h => nomatch h), ?_, ?_⟩
  · intro op' hop'
    rw [List.mem_singleton] at hop'
    exact .inl (hop' ▸ hop)
  · exact fun _ => .inl
  · rw [hop]
    exact Nat.add_comm 1 _

/-- A turn that begins a wait. -/
theorem Turn.begun {a : Base} {e' : SessionEngine} (op : Operation)
    (h : e'.base = { a with nextToken := bump a.nextToken, waitOp := some op })
    (hn : a.nextToken ≠ 0) (hop : op.token = a.nextToken) (hw : a.waitOp = none) :
    Turn a (e', ⟨[], none⟩) := by
  intro ha
  rw [h]
  have hlt := spentAt_bump hn ha.cap
  refine ⟨bump_le, hlt ▸ Nat.le_succ _, (fun _ h => nomatch h), List.nodup_nil, ?_, ?_, ?_⟩
  · intro op' hop'
    cases hop'
    refine ⟨List.not_mem_nil, .inr ⟨?_, ?_⟩⟩
    · rw [hop, spentAt, if_neg hn]
    show op.token < spentAt (bump a.nextToken)
    rw [hop, hlt, spentAt, if_neg hn]
    exact Nat.lt_succ_self _
  · exact fun _ => .inl
  · rw [hw]
    exact (Nat.add_comm 1 _).trans hlt.symm

namespace SessionEngine

variable {e : SessionEngine}

variable {c : Option Operation}

theorem issued_armed : issued c e.armed = [] := by
  unfold armed
  cases e.nextDeadline <;> rfl

theorem issued_cons_armed {x : Effect} {op : Operation} (h : x.issues? c = some op) :
    issued c (x :: e.armed) = [op] :=
  (List.filterMap_cons_some h).trans (congrArg _ issued_armed)

/-! ## Operations -/

def nextOp (e : SessionEngine) : Operation := ⟨e.sessionId, e.generation, e.nextToken⟩

/-- A token is left, and time for an operation. -/
structure Funded (e : SessionEngine) : Prop where
  token : e.nextToken ≠ 0
  time : e.now + e.config.attemptTimeoutMs ≤ u64Max

theorem freshOperation_of_ne (h : e.nextToken ≠ 0) :
    e.freshOperation = .ok ({ e with nextToken := bump e.nextToken }, e.nextOp) := if_neg h

theorem freshOperation_of_eq (h : e.nextToken = 0) :
    e.freshOperation = .error e := if_pos h

theorem freshOr_of_eq (h : e.nextToken = 0) (op : Operation) :
    e.freshOr op = (e, op) := by
  unfold freshOr
  rw [freshOperation_of_eq h]

theorem freshOr_of_ne (h : e.nextToken ≠ 0) (op : Operation) :
    e.freshOr op = ({ e with nextToken := bump e.nextToken }, e.nextOp) := by
  unfold freshOr
  rw [freshOperation_of_ne h]

def waitAt (e : SessionEngine) (stage : Stage) : SessionEngine :=
  { e with
    nextToken := bump e.nextToken
    stage := stage
    outstanding := some (e.nextOp, stage)
    operationDue := some (e.now + e.config.attemptTimeoutMs) }

theorem issue_of_funded (h : e.Funded) (stage : Stage) :
    e.issue stage = .ok (e.waitAt stage, e.nextOp) := by
  unfold issue checkedAdd
  rw [if_pos h.time, freshOperation_of_ne h.token]
  rfl

theorem issue_of_not_funded (h : ¬ e.Funded) (stage : Stage) :
    e.issue stage = .error e := by
  unfold issue
  cases hadd : checkedAdd u64Max e.now e.config.attemptTimeoutMs with
  | none => rfl
  | some due =>
    by_cases htoken : e.nextToken = 0
    · simp only [freshOperation_of_eq htoken]
    · exact absurd ⟨htoken, (checkedAdd_eq_some hadd).1⟩ h

section

variable {stage : Stage} {spent : SessionEngine → Outcome} {timer : SessionEngine → Option Time}
variable {commit : SessionEngine → SessionEngine} {effect : Operation → Effect}

theorem ask_of_funded (h : e.Funded) :
    e.ask stage spent timer commit effect =
      (timer (commit (e.waitAt stage))).bind fun due =>
        done (commit (e.waitAt stage)) [effect e.nextOp, .armTimer due] := by
  unfold ask
  rw [issue_of_funded h]
  rfl

theorem ask_of_not_funded (h : ¬ e.Funded) :
    e.ask stage spent timer commit effect = spent e := by
  unfold ask
  rw [issue_of_not_funded h]

end

/-! ## The gate -/

theorem closeGate_of_shut (h : e.ready = false) : e.closeGate = (e, ⟨[], none⟩) := by
  unfold closeGate
  rw [h]
  rfl

theorem closeGate_of_open (h : e.ready = true) (ht : e.nextToken ≠ 0) :
    e.closeGate =
      ({ e with ready := false, nextToken := bump e.nextToken, revokeOp := some e.nextOp },
      ⟨[.revokeServing e.nextOp], none⟩) := by
  unfold closeGate
  rw [if_pos h, freshOperation_of_ne (e := { e with ready := false }) ht]
  rfl

theorem closeGate_of_spent (h : e.ready = true) (ht : e.nextToken = 0) :
    e.closeGate = ({ e with ready := false, stage := .retryExhausted, revokeOp := none },
      ⟨[.revokeServingUnconfirmed], some .exhausted⟩) := by
  unfold closeGate
  rw [if_pos h, freshOperation_of_eq (e := { e with ready := false }) ht]

theorem closeGate_issued (e : SessionEngine) (c c' : Option Operation) :
    issued c e.closeGate.2.effects = issued c' e.closeGate.2.effects := by
  unfold closeGate
  split
  · split <;> rfl
  · rfl

/-- The schedule is all an accepted proof sets. -/
theorem recordTailSchedule_cases {unchanged : Bool} {r : Except SessionEngine SessionEngine}
    (h : e.recordTailSchedule unchanged = some r) :
    (∃ idle, r = .error { e with idle := idle }) ∨
      ∃ idle fresh poll, r = .ok { e with
        idle := idle, freshnessDue := fresh, tailDue := poll } := by
  unfold recordTailSchedule at h
  split at h
  · cases h
    exact .inl ⟨e.idle, rfl⟩
  obtain ⟨⟨idle, interval⟩, -, h⟩ := Option.bind_eq_some_iff.mp h
  dsimp only at h
  split at h
  · cases h
    exact .inl ⟨idle, rfl⟩
  · cases h
    exact .inr ⟨_, _, _, rfl⟩

/-- A wait that stays the same wait is the same to a turn. -/
theorem base_ackWait {wait wait' : AckWait} (h : e.ackWait = some wait) (hop : wait'.op = wait.op) :
    base { e with ackWait := some wait' } = e.base := by
  unfold base
  rw [h, Option.map_some, Option.map_some, hop]

end SessionEngine

end Groupnet.Replication
