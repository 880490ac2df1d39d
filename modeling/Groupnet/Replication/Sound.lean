import Groupnet.Replication.Phase

/-!
# Every call keeps a session sound

One lemma for each call, in the order of the model.  A call that asks for an operation leaves
the session waiting for it.  Without a token or the time for one it leaves the session at
rest, or leaves the old operation behind.
-/

namespace Groupnet.Replication

namespace SessionEngine

variable {slack : Prop} {e : SessionEngine} {op : Operation} {stage : Stage}

/-- A turn that ends in a sound session. -/
structure Good (slack : Prop) (a : Base) (r : SessionEngine × Step) : Prop where
  sound : a.Known → Sound slack r.1
  turn : Turn a r

/-- Whatever a call of `e` returns is good. -/
abbrev Safe (slack : Prop) (o : Outcome) (e : SessionEngine) : Prop := Ensures o (Good slack e.base)

/-- Nothing is handed out. -/
theorem still {a : Base} {reason : Option Reject} (h : Sound slack e) (hb : e.base = a) :
    Ensures (some (e, ⟨[], reason⟩)) (Good slack a) := .some ⟨fun _ => h, .quiet hb rfl⟩

/-- The answer to an operation that is not under way is turned down. -/
theorem Sound.matched (h : Sound slack e) {o : Outcome}
    (hgo : Answered slack e op stage → Safe slack o e) :
    Safe slack (if e.matchesOp op stage = false then reject e .staleOperation else o) e := by
  split
  · exact still h rfl
  · exact hgo (h.answered (outstanding_of_matchesOp ‹_›))

theorem safe_of_known {a : Base} {o : Outcome} (h : a.Known → Ensures o (Good slack a)) :
    Ensures o (Good slack a) :=
  fun r hr => ⟨fun ha => (h ha r hr).sound ha, fun ha => (h ha r hr).turn ha⟩

theorem Known.apart (h : e.base.Known) (ht : e.nextToken ≠ 0) : e.base.cleanupOp ≠ some e.nextOp :=
  fun hop => h.ne ht (rfl : e.nextOp.token = e.base.nextToken) (.inl hop) rfl

/-- Nothing is under way and nothing is due. -/
structure Idle (e : SessionEngine) : Prop where
  out : e.outstanding = none
  due : e.operationDue = none
  undelayed : e.retryDue = none

/-- The snapshot attempt in progress, if there is one, is past its private part. -/
def Attached (e : SessionEngine) : Prop := ∀ p, e.snapshot = some p → p.attached = true

theorem attached_of_none (h : e.snapshot = none) : e.Attached := fun _ hp => nomatch h.symm.trans hp

/-- A gate that is shut, with nothing under way and no private attempt in progress. -/
structure Calm (e : SessionEngine) : Prop where
  out : e.outstanding = none
  due : e.operationDue = none
  undelayed : e.retryDue = none
  shut : e.ready = false
  attached : e.Attached
  steady : Steady e.frame

theorem Calm.idle (h : e.Calm) : e.Idle := ⟨h.out, h.due, h.undelayed⟩

theorem Sound.rest (h : e.Calm) (hplain : e.stage.plain = true) : Sound slack e := by
  obtain ⟨hwaits, hretry, hguarded, hstage⟩ := Stage.ne_of_plain hplain
  refine ⟨.resting h.out hwaits hretry ?_ ?_ ?_ (.of_attached h.attached hwaits hguarded)
    fun h => absurd h hstage, h.steady⟩
  · exact congrArg Option.isSome h.due
  · exact congrArg Option.isSome h.undelayed
  · exact fun hready => nomatch h.shut.symm.trans hready

section

variable {spent : SessionEngine → Outcome} {timer : SessionEngine → Option Time}
variable {commit : SessionEngine → SessionEngine} {effect : Operation → Effect}

theorem sound_ask (hwaits : stage.waits = true) (hundelayed : e.retryDue = none)
    (hready : e.ready = false) (heffect : ∀ op c, (effect op).issues? c = some op)
    (hcommit : ∀ x, (commit x).control = x.control ∧ (commit x).base = x.base)
    (hfit : e.broke = false → Fit (commit (e.waitAt stage)).data False stage)
    (hsteady : Steady (commit (e.waitAt stage)).frame)
    (hspent : e.broke = true → Safe slack (spent e) e) :
    Safe slack (e.ask stage spent timer commit effect) e := by
  by_cases hf : e.Funded
  · rw [ask_of_funded hf]
    obtain ⟨hcontrol, hbase⟩ := hcommit (e.waitAt stage)
    refine .bind fun due _ => .some ⟨fun hk => ⟨?_, hsteady⟩, .spent e.nextOp hbase hf.token rfl ?_⟩
    · rw [hcontrol]
      refine .waiting e.nextOp rfl hwaits rfl ?_ hready rfl rfl
        (hfit (broke_eq_false_iff.mpr hf)) ?_
      · exact congrArg Option.isSome hundelayed
      · exact Known.apart hk hf.token
    · exact List.filterMap_cons_some (heffect _ _)
  · rw [ask_of_not_funded hf]
    exact hspent (broke_iff.mpr hf)

end

variable {e' : SessionEngine} {p : SnapshotProgress}

/-- An operation left behind. -/
theorem Answered.linger (h : Answered slack e op stage) (hs : slack)
    (hlingers : stage.lingers = true) (hb : e.broke = true)
    (hc : e'.control = { e.control with stage := stage.leftAt }) (hfit : Fit e'.data True stage)
    (hsteady : Steady e'.frame) : Sound slack e' := by
  refine ⟨?_, hsteady⟩
  rw [hc]
  exact .leftover hs op stage h.out hlingers rfl h.timed (congrArg Option.isSome h.undelayed) h.shut
    h.mine.1 h.mine.2 hb hfit

/-! ## What is done on the side -/

/-- At most a token is gone. -/
structure Aside (c : Control) (d : Data) (f : Frame) (e : SessionEngine) : Prop where
  control : e.control = { c with broke := e.broke }
  broke : c.broke = true → e.broke = true
  data : e.data = d
  frame : e.frame = f

theorem Sound.aside (h : Sound slack e) (ha : Aside e.control e.data e.frame e') :
    Sound slack e' := by
  unfold Sound
  rw [ha.control, ha.data, ha.frame]
  exact ⟨h.1.map (q := e.subscription) id ha.broke fun _ => id, h.2⟩

theorem Aside.refl (e : SessionEngine) : Aside e.control e.data e.frame e := ⟨rfl, id, rfl, rfl⟩

theorem broke_bump (ht : e.nextToken ≠ 0) (hb : e.broke = true) (hnow : e'.now = e.now)
    (hconfig : e'.config = e.config) : e'.broke = true := by
  unfold broke at hb ⊢
  rw [decide_eq_true_eq] at hb ⊢
  exact .inr (hnow ▸ hconfig ▸ hb.resolve_left ht)

/-- A turn on the side. -/
abbrev Beside (o : Outcome) (e : SessionEngine) : Prop :=
  Ensures o fun r => Aside e.control e.data e.frame r.1 ∧ Turn e.base r

theorem beside_still {reason : Option Reject} : Beside (some (e, ⟨[], reason⟩)) e :=
  .some ⟨.refl e, .quiet rfl rfl⟩

theorem beside_finishAckWait : Beside e.finishAckWait e := by
  unfold finishAckWait
  cases h : e.ackWait with
  | none => exact beside_still
  | some wait =>
    refine .some ⟨⟨rfl, id, rfl, rfl⟩, .finished wait.op rfl ?_ (issued_cons_armed rfl)⟩
    exact congrArg (Option.map AckWait.op) h

/-- The wait stays the same wait. -/
theorem beside_finishWith {wait wait' : AckWait} (h : e.ackWait = some wait)
    (hop : wait'.op = wait.op) :
    Beside (finishAckWait { e with ackWait := some wait' }) e :=
  beside_finishAckWait.mono fun _ hr => ⟨hr.1, base_ackWait h hop ▸ hr.2⟩

theorem beside_pollAckWait : Beside e.pollAckWait e := by
  unfold pollAckWait
  cases h : e.ackWait with
  | none => exact beside_still
  | some wait =>
    dsimp only
    -- without a token or the time for a poll the wait ends as one without authority
    have hlost : Beside (finishAckWait { e with ackWait := some wait.authorityLost }) e :=
      beside_finishWith (e := e) h wait.authorityLost_op
    split
    · exact beside_still
    split
    · exact hlost
    rename_i due _
    by_cases ht : e.nextToken = 0
    · rw [freshOperation_of_eq ht]
      exact hlost
    · rw [freshOperation_of_ne ht]
      dsimp only
      split
      · exact .none
      rename_i hpoll
      refine .some ⟨⟨rfl, fun hb => broke_bump ht hb rfl rfl, rfl, rfl⟩,
        .spent e.nextOp ?_ ht rfl (issued_cons_armed rfl)⟩
      have hop := wait.poll_op e.nextOp e.now due
      rw [hpoll] at hop
      exact congrArg (fun a : Base => { a with nextToken := bump e.nextToken }) (base_ackWait h hop)

theorem beside_pollWith {wait wait' : AckWait} (h : e.ackWait = some wait)
    (hop : wait'.op = wait.op) :
    Beside (pollAckWait { e with ackWait := some wait' }) e :=
  beside_pollAckWait.mono fun _ hr => ⟨hr.1, base_ackWait h hop ▸ hr.2⟩

theorem beside_startAckWait (request : AckWaitRequest) (limits : AckWaitLimits) :
    Beside (e.startAckWait request limits) e := by
  unfold startAckWait
  split
  · exact beside_still
  rename_i hnone
  split
  · exact beside_still
  split
  · exact .some ⟨⟨rfl, id, rfl, rfl⟩, .quiet rfl rfl⟩
  rename_i ht
  split
  · exact beside_still
  rename_i wait _
  rw [freshOperation_of_ne ht]
  dsimp only
  split
  · exact .none
  rename_i hop
  have hbegun : Turn e.base ({ e with nextToken := bump e.nextToken, ackWait := some wait },
      ⟨[], none⟩) :=
    .begun wait.op rfl ht (Decidable.of_not_not hop ▸ rfl)
      (congrArg (Option.map AckWait.op) (eq_none_of_isSome (Bool.eq_false_of_not_eq_true hnone)))
  have hfirst {r : SessionEngine × Step}
      (h : Aside (control { e with nextToken := bump e.nextToken }) e.data e.frame r.1 ∧
        Turn (base { e with nextToken := bump e.nextToken, ackWait := some wait }) r) :
      Aside e.control e.data e.frame r.1 ∧ Turn e.base r :=
    ⟨⟨h.1.control, fun hb => h.1.broke (broke_bump ht hb rfl rfl), h.1.data, h.1.frame⟩,
      hbegun.trans r.2 h.2 (.refl _)⟩
  split
  · exact beside_finishAckWait.mono fun _ h => hfirst h
  · exact beside_pollAckWait.mono fun _ h => hfirst h

theorem beside_observeAck (evidence : AckEvidence) : Beside (e.observeAck evidence) e := by
  unfold observeAck
  cases h : e.ackWait with
  | none => exact beside_still
  | some wait =>
    dsimp only
    split
    · exact beside_still
    refine .bind fun ⟨wait', error⟩ hobserve => ?_
    have hop := AckWait.observe_op hobserve
    split
    · exact beside_finishWith h hop
    split
    · exact .some ⟨⟨rfl, id, rfl, rfl⟩, .quiet (base_ackWait h hop) rfl⟩
    · exact beside_pollWith h hop

theorem beside_ackChecked (op : Operation) : Beside (e.ackChecked op) e := by
  unfold ackChecked
  cases h : e.ackWait with
  | none => exact beside_still
  | some wait =>
    have hop := wait.checked_op op e.now
    dsimp only
    split
    · exact beside_still
    split
    · rename_i hchecked
      rw [hchecked] at hop
      exact .some ⟨⟨rfl, id, rfl, rfl⟩, .quiet (base_ackWait h hop) issued_armed⟩
    rename_i wait' error hchecked
    rw [hchecked] at hop
    split
    · exact beside_finishWith h hop
    · exact .some ⟨⟨rfl, id, rfl, rfl⟩, .quiet (base_ackWait h hop) rfl⟩

theorem beside_endAckWait (op : Operation) {stop : AckWait → AckWait}
    (hstop : ∀ w, (stop w).op = w.op) :
    Beside (e.endAckWait op stop) e := by
  unfold endAckWait
  cases h : e.ackWait with
  | none => exact beside_still
  | some wait =>
    dsimp only
    split
    · exact beside_still
    · exact beside_finishWith h (hstop wait)

theorem beside_tickAckWait : Beside e.tickAckWait e := by
  unfold tickAckWait
  cases h : e.ackWait with
  | none => exact beside_still
  | some wait =>
    have hop : ((wait.tick e.now).expirePoll e.now).op = wait.op :=
      AckWait.expirePoll_op.trans wait.tick_op
    dsimp only
    split
    · exact beside_finishWith h wait.tick_op
    split
    · exact beside_pollWith h hop
    · exact .some ⟨⟨rfl, id, rfl, rfl⟩, .quiet (base_ackWait h hop) rfl⟩

theorem beside_cancelAckWaitForGeneration : Beside e.cancelAckWaitForGeneration e := by
  unfold cancelAckWaitForGeneration
  cases h : e.ackWait with
  | none => exact beside_still
  | some wait => exact beside_finishWith h wait.cancel_op

/-! ## The tail of the source -/

theorem closeGate_spec (e : SessionEngine) :
    ∃ stage revokeOp nextToken,
      e.closeGate.1 = { e with
        ready := false, stage := stage, revokeOp := revokeOp, nextToken := nextToken } ∧
      (e.closeGate.2.rejection.isSome = true → stage = .retryExhausted ∧ e.ready = true) ∧
      (¬ e.closeGate.2.rejection.isSome = true → stage = e.stage) ∧ Turn e.base e.closeGate := by
  cases h : e.ready with
  | false =>
    rw [closeGate_of_shut h]
    exact ⟨e.stage, e.revokeOp, e.nextToken, by rw [← h], nofun, fun _ => rfl, .quiet rfl rfl⟩
  | true =>
    by_cases ht : e.nextToken = 0
    · rw [closeGate_of_spent h ht]
      exact ⟨_, _, _, rfl, fun _ => ⟨rfl, rfl⟩, fun hn => absurd rfl hn, .quiet rfl rfl⟩
    · rw [closeGate_of_open h ht]
      exact ⟨_, _, _, rfl, nofun, fun _ => rfl, .spent e.nextOp rfl ht rfl rfl⟩

theorem fit_of_replays {d : Data} {loose : Prop} (hreplays : stage.replays = true)
    (hprotocol : d.protocol = .replay) (hattached : ∀ p, d.snapshot = some p → p.attached = true) :
    Fit d loose stage := by
  obtain ⟨hrecovers, hfollows⟩ := Stage.kind_of_replays hreplays
  refine ⟨fun _ => hprotocol, fun _ => hattached, ?_, ?_, ?_⟩
  · exact fun h => nomatch hrecovers.symm.trans h
  · exact fun h => nomatch hfollows.symm.trans h
  · rintro rfl
    cases hreplays

theorem sound_checkTail (hidle : e.Idle) (hprotocol : e.protocol = .replay) (hattached : e.Attached)
    (hsteady : Steady e.frame) : Safe slack e.checkTail e := by
  have hspec := closeGate_spec e
  unfold checkTail
  generalize e.closeGate = c at hspec ⊢
  obtain ⟨e₁, closed⟩ := c
  obtain ⟨stage, revokeOp, nextToken, rfl, hspent, -, hgate⟩ := hspec
  dsimp only at hspent ⊢
  split
  · rename_i hr
    cases (hspent hr).1
    exact .some
      ⟨fun _ => .rest ⟨hidle.out, hidle.due, hidle.undelayed, rfl, hattached, hsteady⟩ rfl, hgate⟩
  by_cases hf : Funded { e with
    ready := false, stage := stage, revokeOp := revokeOp, nextToken := nextToken
    pendingTail := false }
  · rw [issue_of_funded hf]
    refine .bind fun due _ => .some
      ⟨fun hk => ⟨.waiting _ rfl rfl rfl ?_ rfl rfl rfl ?_ ?_, hsteady⟩,
      hgate.trans ⟨[.checkTail _ e.scope e.materialized, .armTimer due], none⟩
        (.spent _ rfl hf.token rfl rfl) (.of_eq (issued_append _ _ _).symm)⟩
    · exact congrArg Option.isSome hidle.undelayed
    · exact fit_of_replays rfl hprotocol hattached
    · exact Known.apart ((hgate hk).known hk) hf.token
  · rw [issue_of_not_funded hf]
    exact .some ⟨fun _ => .rest ⟨hidle.out, hidle.due, hidle.undelayed, rfl, hattached,
      hsteady⟩ rfl, hgate.map rfl rfl⟩

/-! ## What a session knows of itself -/

theorem protocol_eq_replay (h : ¬ e.protocol = .namedSubscription) : e.protocol = .replay := by
  cases hp : e.protocol with
  | replay => rfl
  | namedSubscription => exact absurd hp h

theorem Sound.attached (h : Sound slack e) (hout : e.outstanding = none) : e.Attached := by
  cases h.1 with
  | waiting op hout' | leftover _ op stage hout' => cases hout.symm.trans hout'
  | delayed _ _ _ _ _ _ hfit => exact hfit.attached (RetryTarget.stage_recovers _)
  | resting _ hwaits _ _ _ _ hfit => exact hfit.attached (Stage.recovers_of_waits hwaits)
  | stranded _ _ _ _ _ _ hfit => exact hfit.attached rfl

theorem Sound.idle (h : Sound slack e) (hout : e.outstanding = none)
    (hstage : e.stage ≠ .retryWait) :
    e.Idle := by
  cases h.1 with
  | waiting op hout' | leftover _ op stage hout' => cases hout.symm.trans hout'
  | delayed _ hstage' => exact absurd hstage' hstage
  | resting _ _ _ htimed hdelayed | stranded _ _ _ htimed hdelayed =>
    exact ⟨hout, eq_none_of_isSome htimed, eq_none_of_isSome hdelayed⟩

structure Open (e : SessionEngine) : Prop where
  idle : e.Idle
  stage : e.stage = .ready
  protocol : e.protocol = .replay
  snapshot : e.snapshot = none

theorem Sound.open (h : Sound slack e) (hready : e.ready = true) : e.Open := by
  cases h.1 with
  | waiting _ _ _ _ _ hready' | delayed _ _ _ _ hready' | leftover _ _ _ _ _ _ _ _ hready'
  | stranded _ _ _ _ _ hready' => cases hready.symm.trans hready'
  | resting hout _ _ htimed hdelayed hopen _ hreplay =>
    obtain ⟨hstage, hsnapshot⟩ := hopen hready
    exact ⟨⟨hout, eq_none_of_isSome htimed, eq_none_of_isSome hdelayed⟩, hstage, hreplay hstage,
      hsnapshot⟩

theorem sound_requestTail (h : Sound slack e) (hprotocol : e.protocol = .replay)
    (hstage : e.stage ≠ .retryWait) : Safe slack e.requestTail e := by
  unfold requestTail
  split
  · exact still h rfl
  rename_i hout
  have hout : e.outstanding = none := eq_none_of_isSome (Bool.eq_false_of_not_eq_true hout)
  exact sound_checkTail (h.idle hout hstage) hprotocol (h.attached hout) h.2

theorem deaf_retryWait (h : ¬ e.stage.deaf = true) : e.stage ≠ .retryWait := by
  intro hs
  rw [hs] at h
  exact h rfl

/-- Giving up with nothing under way. -/
theorem sound_giveUp (h : e.Calm) (hplain : stage.plain = true) : Safe slack (giveUp stage e) e :=
  still (.rest { h with } hplain) rfl

theorem sound_startScan (h : e.Calm) (hprotocol : e.protocol = .replay) :
    Safe slack e.startScan e := by
  unfold startScan
  split
  · exact .some ⟨fun _ => .rest { h with } rfl, .quiet rfl rfl⟩
  · exact sound_ask rfl h.undelayed h.shut (fun _ _ => rfl) (fun _ => ⟨rfl, rfl⟩)
      (fun _ => fit_of_replays rfl hprotocol h.attached) h.steady fun _ =>
        sound_giveUp { h with } rfl

theorem sound_idleExhausted (hattached : e.Attached) (hsteady : Steady e.frame) :
    Safe slack e.idleExhausted e := by
  have hspec := closeGate_spec e
  unfold idleExhausted
  generalize e.closeGate = c at hspec ⊢
  obtain ⟨e₁, closed⟩ := c
  obtain ⟨stage, revokeOp, nextToken, rfl, -, -, hgate⟩ := hspec
  exact .some ⟨fun _ => .rest ⟨rfl, rfl, rfl, rfl, hattached, hsteady⟩ rfl, hgate.map rfl rfl⟩

theorem sound_activity (h : Sound slack e) (hprotocol : e.protocol = .replay) :
    Safe slack e.activity e := by
  unfold activity
  split
  · exact still h rfl
  rename_i hdeaf
  dsimp only
  split
  · exact still h rfl
  split
  · exact still h rfl
  split
  · exact sound_requestTail (e := e.forceHotNext) h hprotocol (deaf_retryWait hdeaf)
  rename_i hfresh
  split
  · have hready : e.ready = true := Bool.eq_true_of_not_eq_false fun hr => hfresh (.inr (.inl hr))
    exact sound_idleExhausted (h.attached (h.open hready).idle.out) h.2
  · split
    · exact still h rfl
    · exact .some ⟨fun _ => h, .quiet rfl issued_armed⟩

/-! ## Bootstrap -/

theorem sound_loadCheckpoint (h : e.Calm) (hprotocol : e.protocol = .replay) :
    Safe slack e.loadCheckpoint e :=
  sound_ask rfl h.undelayed h.shut (fun _ _ => rfl) (fun _ => ⟨rfl, rfl⟩)
    (fun _ => fit_of_replays rfl hprotocol h.attached) h.steady fun _ => sound_giveUp { h with } rfl

theorem Sound.shut (h : Sound slack e) (hstage : e.stage ≠ .ready) : e.ready = false := by
  cases hr : e.ready with
  | false => rfl
  | true => exact absurd (h.open hr).stage hstage

theorem sound_startBootstrap (h : Sound slack e) (hprotocol : e.protocol = .replay) :
    Safe slack e.startBootstrap e := by
  unfold startBootstrap
  split
  · exact still h rfl
  rename_i hcond
  simp only [not_or, not_not, Bool.not_eq_true] at hcond
  obtain ⟨hstage, hout, -⟩ := hcond
  have hout : e.outstanding = none := eq_none_of_isSome hout
  exact sound_loadCheckpoint { h.idle hout (hstage ▸ nofun) with
    shut := h.shut (hstage ▸ nofun), attached := h.attached hout, steady := h.2 } hprotocol

/-- The engine that starts over from a checkpoint checks its tail. -/
theorem sound_resumeState (h : Sound slack e) (hprotocol : e.protocol = .replay)
    (hattached : e.Attached) (cursor : Cursor) (next : Bool)
    (hlast : next = true → e.Idle ∨ e.stage = .unready) :
    Safe slack (e.resumeState cursor next) e := by
  unfold resumeState
  split
  · exact still h rfl
  cases hready : e.ready with
  | false =>
    rw [closeGate_of_shut hready]
    dsimp only
    rw [if_neg nofun]
    split
    · rename_i hnone
      refine still ?_ rfl
      cases next with
      | false => cases hnone
      | true =>
        rcases hlast rfl with hidle | hunready
        · exact .rest ⟨hidle.out, hidle.due, hidle.undelayed, hready, hattached, h.2⟩ rfl
        -- the stage stays what it is
        have hsame : control { e with stage := .unready } = e.control := by
          unfold control
          rw [hunready]
          rfl
        exact ⟨hsame ▸ h.1, h.2⟩
    · exact .chain (sound_checkTail ⟨rfl, rfl, rfl⟩ hprotocol hattached h.2) fun _ hr =>
        .some ⟨hr.1, hr.2⟩
  | true =>
    have hidle := (h.open hready).idle
    have hspec := closeGate_spec e
    generalize e.closeGate = c at hspec ⊢
    obtain ⟨e₁, closed⟩ := c
    obtain ⟨stage, revokeOp, nextToken, rfl, hspent, -, hgate⟩ := hspec
    dsimp only at hspent ⊢
    split
    · cases (hspent ‹_›).1
      exact .some ⟨fun _ => .rest ⟨hidle.out, hidle.due, hidle.undelayed, rfl, hattached, h.2⟩ rfl,
        hgate⟩
    split
    · exact .some ⟨fun _ => .rest ⟨hidle.out, hidle.due, hidle.undelayed, rfl, hattached, h.2⟩ rfl,
        hgate.map rfl rfl⟩
    · refine .chain (sound_checkTail ⟨rfl, rfl, rfl⟩ hprotocol hattached h.2) fun r hr =>
        .some ⟨fun hk => hr.1 ((hgate hk).known hk), ?_⟩
      exact hgate.trans r.2 hr.2 (.of_eq (issued_append _ _ _).symm)

theorem acceptCheckpoint_matches {cursor : Option Cursor} {payloadId : Option Nat}
    {candidate : Option (Cursor × Nat)}
    (h : e.acceptCheckpoint op cursor payloadId = .ok candidate) :
    e.outstanding = some (op, .loadingCheckpoint) := by
  unfold acceptCheckpoint at h
  split at h
  · cases h
  · exact outstanding_of_matchesOp ‹_›

/-- The operation of a stage that never lingers is the one of the session's stage. -/
theorem Answered.fits (h : Answered slack e op stage) (hlingers : stage.lingers = false) :
    e.stage = stage ∧ Fit e.data False stage ∧ e.base.cleanupOp ≠ some op := by
  rcases h.here with ⟨hstage, -, hfit⟩ | ⟨-, -, hl, -⟩
  · exact ⟨hstage, hfit⟩
  · cases hlingers.symm.trans hl

theorem sound_checkpointLoaded (h : Sound slack e) (cursor : Option Cursor) (payloadId : Option Nat)
    (hslack : e.broke = true → slack) :
    Safe slack (e.checkpointLoaded op cursor payloadId) e := by
  unfold checkpointLoaded
  split
  · exact still h rfl
  · rename_i haccept
    have ha := h.answered (acceptCheckpoint_matches haccept)
    exact sound_checkTail ⟨rfl, rfl, ha.undelayed⟩ (ha.fit.replay rfl) (ha.fit.attached rfl) h.2
  rename_i cursor payloadId haccept
  have ha := h.answered (acceptCheckpoint_matches haccept)
  refine sound_ask rfl ha.undelayed ha.shut (fun _ _ => rfl) (fun _ => ⟨rfl, rfl⟩)
    (fun _ => fit_of_replays rfl (ha.fit.replay rfl) (ha.fit.attached rfl)) h.2 fun hb =>
      still ?_ rfl
  exact ha.linger (hslack hb) rfl hb rfl (ha.fit.mono fun _ => trivial) h.2

theorem sound_checkpointInstalled (h : Sound slack e) (receipt : ApplyReceipt) :
    Safe slack (e.checkpointInstalled op receipt) e := by
  unfold checkpointInstalled
  refine h.matched fun ha => ?_
  split
  · exact still h rfl
  split
  · exact still h rfl
  · exact sound_resumeState h (ha.fit.replay rfl) (ha.fit.attached rfl) _ _ nofun

/-! ## Snapshots -/

/-- A disposal under a new operation hands it out. -/
theorem issued_disposal {attempt : Operation} {disposition : SnapshotCleanupDisposition}
    (h : e.base.Known) (ht : e.nextToken ≠ 0) (hheld : e.base.Holds attempt) :
    issued e.base.cleanupOp [.discardSnapshotResources e.nextOp attempt disposition] = [e.nextOp] :=
  List.filterMap_cons_some (if_neg (not_or.mpr ⟨(h.ne ht rfl hheld).symm, Known.apart h ht⟩))

theorem issued_repeat (c : Option Operation) (op : Operation)
    (disposition : SnapshotCleanupDisposition) :
    issued c [.discardSnapshotResources op op disposition] = [] :=
  List.filterMap_cons_none (if_pos (.inl rfl))

theorem dropSnapshot_spec (e : SessionEngine) (disposition : SnapshotCleanupDisposition) :
    ∃ cleanup nextToken, (e.dropSnapshot disposition).1 = { e with
      snapshot := none, snapshotCleanup := cleanup, nextToken := nextToken } ∧
      Turn e.base ((e.dropSnapshot disposition).1, ⟨(e.dropSnapshot disposition).2, none⟩) := by
  unfold dropSnapshot
  split
  · rename_i hnone
    exact ⟨e.snapshotCleanup, e.nextToken, by rw [← hnone], .quiet rfl rfl⟩
  rename_i progress hprogress
  split
  · exact ⟨_, _, rfl, .loose ⟨rfl, rfl, fun _ h => h.imp_right (Or.imp_left nofun)⟩ rfl⟩
  rename_i attempt hattempt
  have hheld : e.base.Holds attempt :=
    .inr (.inl ((congrArg (Option.bind · SnapshotProgress.attempt) hprogress).trans hattempt))
  by_cases ht : e.nextToken = 0
  · have hturn {cleanup : CleanupState} (hop : cleanup.op = attempt) :
        Turn e.base ({ e with snapshot := none, snapshotCleanup := some cleanup },
          ⟨[.discardSnapshotResources attempt attempt disposition], none⟩) := by
      refine .loose ⟨rfl, rfl, ?_⟩ (issued_repeat _ _ _)
      rintro op (h | h | h)
      · cases h
        exact hop ▸ hheld
      · cases h
      · exact .inr (.inr h)
    rw [freshOr_of_eq (e := { e with snapshot := none }) ht]
    cases checkedAdd u64Max e.now e.config.attemptTimeoutMs with
    | none => exact ⟨_, _, rfl, hturn rfl⟩
    | some due =>
      dsimp only
      rw [if_pos rfl]
      exact ⟨_, _, rfl, hturn rfl⟩
  · have hturn {cleanup : CleanupState} {fx : List Effect} (hop : cleanup.op = e.nextOp)
        (hfx : e.base.Known → issued e.base.cleanupOp fx = [e.nextOp]) :
        Turn e.base ({ e with
          snapshot := none, snapshotCleanup := some cleanup, nextToken := bump e.nextToken },
            ⟨fx, none⟩) := by
      refine .kept e.nextOp rfl rfl ?_ ht rfl hfx
      rintro op (h | h | h)
      · cases h
        exact .inr hop
      · cases h
      · exact .inl (.inr (.inr h))
    rw [freshOr_of_ne (e := { e with snapshot := none }) ht]
    cases checkedAdd u64Max e.now e.config.attemptTimeoutMs with
    | none => exact ⟨_, _, rfl, hturn rfl fun h => issued_disposal h ht hheld⟩
    | some due =>
      dsimp only
      split
      · exact ⟨_, _, rfl, hturn rfl fun h => issued_disposal h ht hheld⟩
      · exact ⟨_, _, rfl, hturn rfl fun _ => rfl⟩

theorem sound_abortSnapshot (hundelayed : e.retryDue = none) (hsteady : Steady e.frame) :
    Safe slack e.abortSnapshot e := by
  have hspec := dropSnapshot_spec { e with liveAttachmentAttempt := none } .aborted
  unfold abortSnapshot
  generalize dropSnapshot { e with liveAttachmentAttempt := none } .aborted = c at hspec ⊢
  obtain ⟨e₁, cleanup⟩ := c
  obtain ⟨_, _, rfl, hdrop⟩ := hspec
  refine .some ⟨fun _ => .rest ⟨rfl, rfl, hundelayed, rfl, attached_of_none rfl,
    Steady.dropped (f := e.frame) hsteady⟩ rfl, hdrop.weaken ⟨rfl, rfl, ?_⟩ rfl⟩
  exact fun _ h => h.imp_right (Or.imp_right nofun)

theorem fit_of_recovers {d : Data} {loose : Prop} (hrecovers : stage.recovers = true)
    (hp : d.snapshot = some p) (hattached : p.attached = false) : Fit d loose stage := by
  obtain ⟨hreplays, hfollows, -⟩ := Stage.kind_of_recovers hrecovers
  refine ⟨?_, ?_, fun _ => ⟨p, hp, hattached⟩, ?_, ?_⟩
  · exact fun h => nomatch hreplays.symm.trans h
  · exact fun h => nomatch hrecovers.symm.trans h
  · exact fun h => nomatch hfollows.symm.trans h
  · rintro rfl
    cases hrecovers

theorem sound_snapshotEffect {effect : Operation → Effect} (hundelayed : e.retryDue = none)
    (hready : e.ready = false) (hrecovers : stage.recovers = true) (hp : e.snapshot = some p)
    (hattached : p.attached = false) (heffect : ∀ op c, (effect op).issues? c = some op)
    (hsteady : Steady e.frame) :
    Safe slack (e.snapshotEffect stage effect) e := by
  refine sound_ask (Stage.kind_of_recovers hrecovers).2.2 hundelayed hready heffect
    (fun _ => ⟨rfl, rfl⟩) (fun _ => ?_) hsteady fun _ => sound_abortSnapshot hundelayed hsteady
  exact fit_of_recovers hrecovers hp hattached

/-- An attempt goes on when the completion is one of its own. -/
theorem sound_onSnapshot (h : Sound slack e) (hrecovers : stage.recovers = true)
    {next : SnapshotProgress → Outcome}
    (hnext : ∀ p, Answered slack e op stage → e.snapshot = some p → p.attached = false →
      Safe slack (next p) e) :
    Safe slack (e.onSnapshot op stage next) e := by
  unfold onSnapshot
  split
  · exact still h rfl
  rename_i hlive
  have hm : ¬ e.matchesOp op stage = false := by
    intro hm
    rw [snapshotLive, hm] at hlive
    exact hlive rfl
  have ha := h.answered (outstanding_of_matchesOp hm)
  obtain ⟨p, hp, hattached⟩ := ha.fit.recovers hrecovers
  rw [show e.snapshot = some p from hp]
  exact hnext p ha hp hattached

theorem abortSnapshot_result {step : Step} (h : e.abortSnapshot = some (e', step)) :
    e'.snapshot = none ∧ step.rejection = none := by
  have hspec := dropSnapshot_spec { e with liveAttachmentAttempt := none } .aborted
  unfold abortSnapshot at h
  generalize dropSnapshot { e with liveAttachmentAttempt := none } .aborted = c at hspec h
  obtain ⟨e₁, cleanup⟩ := c
  obtain ⟨_, _, rfl, -⟩ := hspec
  cases h
  exact ⟨rfl, rfl⟩

theorem sound_startSnapshot (h : Sound slack e) {a : Base} (hb : e.base.Below a) :
    Ensures e.startSnapshot (Good slack a) := by
  unfold startSnapshot
  split
  · exact .some ⟨fun _ => h, .loose hb rfl⟩
  rename_i hcond
  simp only [not_or, not_not, Bool.not_eq_true] at hcond
  obtain ⟨hmode, hconfig, hnone, -, hout, hstage⟩ := hcond
  have hout : e.outstanding = none := eq_none_of_isSome hout
  have hretry : e.stage ≠ .retryWait := by
    intro hs
    rw [hs] at hstage
    simp at hstage
  have hidle := h.idle hout hretry
  refine .bind fun limits _ => ?_
  split
  · exact .some ⟨fun _ => h, .loose hb rfl⟩
  rename_i total _
  have hspec := closeGate_spec e
  have hsame := closeGate_issued e e.base.cleanupOp a.cleanupOp
  generalize e.closeGate = c at hspec hsame ⊢
  obtain ⟨e₁, closed⟩ := c
  obtain ⟨stage, revokeOp, nextToken, rfl, hspent, -, hgate⟩ := hspec
  dsimp only at hspent ⊢
  split
  · cases (hspent ‹_›).1
    exact .some
      ⟨fun _ => .rest ⟨hidle.out, hidle.due, hidle.undelayed, rfl, h.attached hout, h.2⟩ rfl,
      hgate.weaken hb hsame⟩
  refine .bind fun ⟨e₂, step⟩ heffect => ?_
  unfold snapshotEffect at heffect
  by_cases hf : Funded (noteSnapshot { e with
      ready := false, stage := stage, revokeOp := revokeOp, nextToken := nextToken }
    ⟨none, total, false, none, none, none, 0, 0, none, none, none, none, none⟩)
  · rw [ask_of_funded hf] at heffect
    obtain ⟨due, -, heffect⟩ := Option.bind_eq_some_iff.mp heffect
    cases heffect
    have hstaged : e.mode = .stateSync ∧ e.config.snapshot.isSome = true :=
      ⟨hmode, Option.isSome_iff_ne_none.mpr hconfig⟩
    refine .some
      ⟨fun hk => ⟨.waiting _ rfl rfl rfl (congrArg Option.isSome hidle.undelayed) rfl rfl rfl
      ?_ ?_, ?_⟩, ?_⟩
    · exact fit_of_recovers rfl rfl rfl
    · exact Known.apart ((hgate (hb.known hk)).known (hb.known hk)) hf.token
    · exact ⟨h.2.scope, h.2.named, h.2.subscribed, fun _ => hstaged, h.2.kept⟩
    · refine (hgate.weaken hb hsame).trans
        ⟨[.acquireSnapshotHold (nextOp { e with nextToken := nextToken }) e.scope total,
          .armTimer due], none⟩
        (.kept _ rfl rfl ?_ hf.token rfl fun _ => rfl) (.of_eq (by rw [issued_append]; rfl))
      rintro op (h | h | h)
      · exact .inl (.inl h)
      · cases h
        exact .inr rfl
      · exact .inl (.inr (.inr h))
  · -- the attempt is aborted within, and the attempt to name it fails
    rw [ask_of_not_funded hf] at heffect
    obtain ⟨hsnapshot, hrejection⟩ := abortSnapshot_result heffect
    rw [hrejection, if_neg nofun, hsnapshot]
    exact .none

/-- A cleanup that goes on, or is over. -/
theorem Sound.disposed (h : Sound slack e) {cleanup : Option CleanupState}
    (hc : ∀ op, cleanup.map CleanupState.op = some op → e.base.cleanupOp = some op) :
    Sound slack { e with snapshotCleanup := cleanup } :=
  ⟨h.1.map (q := e.subscription) id id hc, h.2⟩

theorem below_cleaned : (base { e with snapshotCleanup := none }).Below e.base :=
  ⟨rfl, rfl, fun _ h => h.imp_left nofun⟩

theorem sound_expireSnapshotCleanup (h : Sound slack e) :
    Safe slack e.expireSnapshotCleanup e := by
  unfold expireSnapshotCleanup
  split
  · exact still h rfl
  rename_i cleanup hcleanup
  split
  · exact still h rfl
  have hop : e.base.cleanupOp = some cleanup.op := congrArg (Option.map CleanupState.op) hcleanup
  refine .some ⟨fun _ => h.disposed fun _ hc => hop.trans hc, .quiet ?_ ?_⟩
  · exact congrArg (fun c => { e.base with cleanupOp := c }) hop.symm
  · exact List.filterMap_cons_none (if_pos (.inr hop))

theorem sound_snapshotCleaned (h : Sound slack e) (op : Operation) :
    Safe slack (e.snapshotCleaned op) e := by
  unfold snapshotCleaned
  split
  · exact still h rfl
  split
  · exact still h rfl
  split
  · exact sound_expireSnapshotCleanup h
  · exact .some ⟨fun _ => h.disposed nofun, .loose below_cleaned rfl⟩

theorem sound_snapshotDiscarded (h : Sound slack e) (op : Operation)
    (disposition : SnapshotCleanupDisposition) :
    Safe slack (e.snapshotDiscarded op disposition) e := by
  unfold snapshotDiscarded
  split
  · exact still h rfl
  split
  · exact still h rfl
  dsimp only
  have hcleaned : Sound slack { e with snapshotCleanup := none } := h.disposed nofun
  split
  · exact sound_startSnapshot hcleaned below_cleaned
  · exact .some ⟨fun _ => hcleaned, .loose below_cleaned rfl⟩

/-- An attempt that notes something down still waits for the same operation. -/
theorem Answered.note (h : Answered slack e op stage) (hrecovers : stage.recovers = true)
    (hlingers : stage.lingers = false) {p' : SnapshotProgress} (hp : e.snapshot = some p)
    (hattached : p'.attached = false) : Sound slack (e.noteSnapshot p') := by
  obtain ⟨-, -, hwaits⟩ := Stage.kind_of_recovers hrecovers
  obtain ⟨rfl, -, hapart⟩ := h.fits hlingers
  refine ⟨.waiting op h.out hwaits h.timed (congrArg Option.isSome h.undelayed) h.shut h.mine.1
    h.mine.2 ?_ hapart, ?_⟩
  · exact fit_of_recovers hrecovers rfl hattached
  · exact Steady.noted (f := e.frame) h.steady (hp ▸ rfl : e.snapshot.isSome = true) p'

section

variable {p : SnapshotProgress}

theorem base_noteSnapshot {p' : SnapshotProgress} (hp : e.snapshot = some p)
    (hattempt : p'.attempt = p.attempt) : (e.noteSnapshot p').base = e.base := by
  unfold base noteSnapshot
  rw [hp, Option.bind_some, Option.bind_some, hattempt]

theorem Safe.noted {o : Outcome} {p' : SnapshotProgress} (h : Safe slack o (e.noteSnapshot p'))
    (hp : e.snapshot = some p) (hattempt : p'.attempt = p.attempt) : Safe slack o e :=
  h.mono fun _ hr => base_noteSnapshot hp hattempt ▸ hr

/-- The next operation of an attempt that noted something down. -/
theorem Answered.goOn (h : Answered slack e op stage) {stage' : Stage} {effect : Operation → Effect}
    {p' : SnapshotProgress} (hp : e.snapshot = some p) (hattempt : p'.attempt = p.attempt)
    (hrecovers : stage'.recovers = true) (hattached : p'.attached = false)
    (heffect : ∀ op c, (effect op).issues? c = some op) :
    Safe slack ((e.noteSnapshot p').snapshotEffect stage' effect) e := by
  have hsteady : Steady (e.noteSnapshot p').frame :=
    Steady.noted (f := e.frame) h.steady (hp ▸ rfl : e.snapshot.isSome = true) p'
  exact Safe.noted (sound_snapshotEffect h.undelayed h.shut hrecovers rfl hattached heffect hsteady)
    hp hattempt

section

variable (h : Sound slack e)

include h

theorem sound_snapshotHeld (receipt : HoldReceipt) : Safe slack (e.snapshotHeld op receipt) e := by
  refine sound_onSnapshot h rfl fun p ha hp hattached => ?_
  split
  · exact still h rfl
  refine .bind fun limits _ => ?_
  split
  · exact still h rfl
  · exact ha.goOn hp rfl rfl hattached fun _ _ => rfl

theorem sound_snapshotOffered (offer : SnapshotOffer) :
    Safe slack (e.snapshotOffered op offer) e := by
  refine sound_onSnapshot h rfl fun p ha hp hattached => .bind fun limits _ => ?_
  split
  · exact still h rfl
  split
  · exact still h rfl
  · exact ha.goOn hp rfl rfl hattached fun _ _ => rfl

theorem sound_snapshotNextChunk (hundelayed : e.retryDue = none) (hready : e.ready = false)
    (hp : e.snapshot = some p) (hattached : p.attached = false) :
    Safe slack e.snapshotNextChunk e := by
  unfold snapshotNextChunk
  rw [hp]
  dsimp only
  split
  · exact still h rfl
  split
  · split
    · exact still h rfl
    · exact sound_snapshotEffect hundelayed hready rfl hp hattached (fun _ _ => rfl) h.2
  · split
    · exact .none
    · exact .bind fun limits _ => sound_snapshotEffect hundelayed hready rfl hp hattached
        (fun _ _ => rfl) h.2

theorem sound_snapshotOpened (charged : Nat) : Safe slack (e.snapshotOpened op charged) e := by
  refine sound_onSnapshot h rfl fun p ha hp hattached => .bind fun limits _ => ?_
  split
  · exact still h rfl
  · exact sound_snapshotNextChunk h ha.undelayed ha.shut hp hattached

theorem sound_snapshotRead (chunk : ChunkReceipt) : Safe slack (e.snapshotRead op chunk) e := by
  refine sound_onSnapshot h rfl fun p ha hp hattached => ?_
  split
  · exact still h rfl
  split
  · exact still h rfl
  refine .bind fun limits _ => ?_
  split
  · exact still h rfl
  · exact ha.goOn hp rfl rfl hattached fun _ _ => rfl

theorem sound_snapshotWritten (index through charged : Nat) :
    Safe slack (e.snapshotWritten op index through charged) e := by
  refine sound_onSnapshot h rfl fun p ha hp hattached => .bind fun limits _ => ?_
  split
  · split
    · exact still h rfl
    refine .bind fun stop hstop => ?_
    split
    · exact still h rfl
    split
    · exact still h rfl
    · refine Safe.noted ?_ hp rfl
      exact sound_snapshotNextChunk (ha.note rfl rfl hp hattached) ha.undelayed ha.shut rfl
        hattached
  · exact still h rfl

theorem sound_snapshotVerified (charged : Nat) : Safe slack (e.snapshotVerified op charged) e := by
  refine sound_onSnapshot h rfl fun p ha hp hattached => .bind fun limits _ => ?_
  split
  · exact still h rfl
  · exact .bind fun start _ => sound_snapshotEffect ha.undelayed ha.shut rfl hp hattached
      (fun _ _ => rfl) h.2

end

/-- Replays on, or seals the image at its end. -/
theorem Answered.scanOrSeal (h : Answered slack e op stage) {p' : SnapshotProgress} {c : Prop}
    [Decidable c] (hp : e.snapshot = some p) (hattempt : p'.attempt = p.attempt)
    (hattached : p'.attached = false) :
    Safe slack (if c then (e.noteSnapshot p').snapshotSeal else (e.noteSnapshot p').snapshotScan)
      e := by
  split
  · exact .bind fun _ _ => h.goOn hp hattempt rfl hattached fun _ _ => rfl
  · exact .bind fun _ _ => h.goOn hp hattempt rfl hattached fun _ _ => rfl

section

variable (h : Sound slack e)

include h

theorem sound_snapshotBarrier (proof : SourceProof) (comparisons : List BoundComparison) :
    Safe slack (e.snapshotBarrier op proof comparisons) e := by
  refine sound_onSnapshot h rfl fun p ha hp hattached => ?_
  split
  · exact still h rfl
  · exact still h rfl
  split
  · exact still h rfl
  · exact ha.scanOrSeal hp rfl hattached

theorem sound_snapshotScanned (batch : Batch) : Safe slack (e.snapshotScanned op batch) e := by
  refine sound_onSnapshot h rfl fun p ha hp hattached => ?_
  split
  · split
    · exact still h rfl
    · exact ha.goOn hp rfl rfl hattached fun _ _ => rfl
  · exact still h rfl

theorem sound_snapshotApplied (through : Cursor) (charged : Nat) :
    Safe slack (e.snapshotApplied op through charged) e := by
  refine sound_onSnapshot h rfl fun p ha hp hattached => .bind fun limits _ => ?_
  split
  · exact still h rfl
  split
  · exact still h rfl
  · exact ha.scanOrSeal hp rfl hattached

theorem sound_snapshotSealed (through : Cursor) (payloadId charged : Nat) :
    Safe slack (e.snapshotSealed op through payloadId charged) e := by
  refine sound_onSnapshot h rfl fun p ha hp hattached => .bind fun limits _ => ?_
  split
  · exact still h rfl
  · exact ha.goOn hp rfl rfl hattached fun _ _ => rfl

theorem sound_snapshotInstalled (receipt : ApplyReceipt) :
    Safe slack (e.snapshotInstalled op receipt) e := by
  refine sound_onSnapshot h rfl fun p ha hp hattached => ?_
  split
  · exact still h rfl
  · exact sound_snapshotEffect ha.undelayed ha.shut rfl hp hattached (fun _ _ => rfl) h.2

theorem sound_snapshotAttached (proof : SourceProof) (comparisons : List BoundComparison) :
    Safe slack (e.snapshotAttached op proof comparisons) e := by
  refine sound_onSnapshot h rfl fun p ha hp hattached => ?_
  have hsome : e.frame.snapshot.isSome = true := congrArg Option.isSome hp
  split
  · exact still h rfl
  · exact still h rfl
  split
  · exact still h rfl
  refine Safe.noted ?_ hp rfl
  refine sound_checkTail ⟨rfl, rfl, ha.undelayed⟩ (h.2.replay hsome) ?_ (Steady.noted h.2 hsome _)
  rintro _ ⟨⟩
  rfl

end

end

end SessionEngine

end Groupnet.Replication
