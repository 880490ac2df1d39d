import Groupnet.Replication.Subscribed

/-!
# Every event keeps a session sound

The answers to a tail check, the retries, the clock and the table itself.  Two kinds of
events need `slack`: a completion whose next operation cannot be asked for, and a check of
the tail that finds the replica at the head and cannot tell how it lies to its floors.
-/

namespace Groupnet.Replication

namespace SessionEngine

variable {slack : Prop} {e : SessionEngine} {op : Operation} {stage : Stage}

/-! ## Answers to a tail check -/

/-- Whether the answer to a tail check tells all that is asked about a replica at the head:
how it lies to the floor, and to the head the image was attached at. -/
def tailTold (e : SessionEngine) (proof : SourceProof) (comparisons : List BoundComparison) :
    Bool :=
  e.materialized.all fun materialized =>
    match relation comparisons materialized proof.head proof with
    | .ok .equal =>
      (e.target.all fun target => (relation comparisons materialized target proof).isOk) &&
        (e.snapshot.bind SnapshotProgress.attachHead).all fun head =>
          (relation comparisons materialized head proof).isOk
    | _ => true

theorem relation_ne_incomparable {comparisons : List BoundComparison} {left right : Cursor}
    {proof : SourceProof} :
    relation comparisons left right proof ≠ .ok .incomparable := by
  intro h
  unfold relation at h
  split at h
  · cases h
  split at h
  · cases h
  · cases h
  rename_i order hne _
  cases h
  exact hne rfl

theorem acceptTail_spec {materialized : Cursor} {proof : SourceProof}
    {comparisons : List BoundComparison} {toHead toLow : Comparison}
    (h : acceptTail materialized proof comparisons = .ok (toHead, toLow)) :
    relation comparisons materialized proof.head proof = .ok toHead ∧ toHead ≠ .after ∧
      relation comparisons materialized proof.retainedFrom proof = .ok toLow := by
  unfold acceptTail at h
  split at h
  · cases h
  rename_i hall
  split at h
  · cases h
  rename_i hafter
  cases h
  unfold allOf at hall
  split at hall
  · cases hall
  · cases hall
  · cases hall
  rename_i ha hb _
  cases hall
  exact ⟨ha, fun heq => hafter (.inl heq), hb⟩

/-- A tail check whose operation is gone. -/
theorem sound_stranded (hs : slack) (h : e.Calm) (hprotocol : e.protocol = .replay)
    (hstage : e.stage = .checkingTail) : Sound slack e :=
  ⟨.stranded hs h.out hstage (congrArg Option.isSome h.due)
    (congrArg Option.isSome h.undelayed) h.shut (fit_of_replays rfl hprotocol h.attached), h.steady⟩

/-- The serving state. -/
theorem sound_ready (hidle : e.Idle) (hprotocol : e.protocol = .replay)
    (hsnapshot : e.snapshot = none) (hstage : e.stage = .ready) (hsteady : Steady e.frame) :
    Sound slack e := by
  have hcontrol : e.control.stage = .ready := hstage
  refine ⟨.resting hidle.out ?_ ?_ (congrArg Option.isSome hidle.due)
    (congrArg Option.isSome hidle.undelayed)
    (fun _ => ⟨hstage, hsnapshot⟩) (.of_attached (attached_of_none hsnapshot) ?_ ?_) fun _ =>
      hprotocol, hsteady⟩ <;> rw [hcontrol]
  · rfl
  · nofun
  · rfl
  · nofun

theorem finishSnapshot_spec (e : SessionEngine) :
    ∃ live cleanup nextToken, e.finishSnapshot.1 = { e with
      liveAttachmentAttempt := live, snapshot := none, snapshotCleanup := cleanup,
        nextToken := nextToken } ∧
      Turn e.base (e.finishSnapshot.1, ⟨e.finishSnapshot.2, none⟩) := by
  obtain ⟨cleanup, nextToken, h, hturn⟩ := dropSnapshot_spec
    { e with liveAttachmentAttempt := e.snapshot.bind SnapshotProgress.attempt } .completed
  refine ⟨_, cleanup, nextToken, h, hturn.weaken ⟨rfl, rfl, ?_⟩ rfl⟩
  exact fun _ h => h.imp_right fun h => .inl (h.elim id id)

theorem cancelSnapshotResources_spec (e : SessionEngine) :
    ∃ live cleanup nextToken, e.cancelSnapshotResources.1 = { e with
      liveAttachmentAttempt := live, snapshot := none, snapshotCleanup := cleanup,
        nextToken := nextToken } ∧
      Turn e.base (e.cancelSnapshotResources.1, ⟨e.cancelSnapshotResources.2, none⟩) := by
  unfold cancelSnapshotResources
  split
  · exact ⟨_, dropSnapshot_spec e .aborted⟩
  rename_i hnone
  have hnone : e.snapshot = none := eq_none_of_isSome (Bool.eq_false_of_not_eq_true hnone)
  split
  · exact ⟨e.liveAttachmentAttempt, e.snapshotCleanup, e.nextToken, by rw [← hnone], .quiet rfl rfl⟩
  rename_i attempt hattempt
  have hheld : e.base.Holds attempt := .inr (.inr hattempt)
  by_cases ht : e.nextToken = 0
  · rw [freshOr_of_eq (e := { e with liveAttachmentAttempt := none }) ht]
    refine ⟨none, _, _, by rw [← hnone], .loose ⟨rfl, rfl, ?_⟩ (issued_repeat _ _ _)⟩
    rintro op (h | h | h)
    · cases h
      exact hheld
    · exact .inr (.inl h)
    · cases h
  · rw [freshOr_of_ne (e := { e with liveAttachmentAttempt := none }) ht]
    refine ⟨none, _, _, by rw [← hnone],
      .kept e.nextOp rfl rfl ?_ ht rfl fun h => issued_disposal h ht hheld⟩
    rintro op (h | h | h)
    · cases h
      exact .inr rfl
    · exact .inl (.inr (.inl h))
    · cases h

/-- The timer that may follow hands out nothing. -/
theorem issued_append_arming (c : Option Operation) (effects : List Effect) (p : Prop)
    [Decidable p] :
    issued c (effects ++ if p then e.armed else []) = issued c effects := by
  rw [issued_append]
  split
  · rw [issued_armed, List.append_nil]
  · exact List.append_nil _

/-- The check of the tail disposes of nothing. -/
theorem checkTail_issued (c c' : Option Operation) :
    Ensures e.checkTail fun r => issued c r.2.effects = issued c' r.2.effects := by
  have hsame := closeGate_issued e c c'
  unfold checkTail
  generalize e.closeGate = gate at hsame
  obtain ⟨e₁, closed⟩ := gate
  refine .ite (fun _ => .some hsame) fun _ => ?_
  split
  · exact .some hsame
  refine .bind fun due _ => .some ?_
  rw [issued_append, issued_append]
  exact congrArg (· ++ _) hsame

theorem cancelAckWaitForGeneration_issued (c c' : Option Operation) :
    Ensures e.cancelAckWaitForGeneration fun r => issued c r.2.effects = issued c' r.2.effects := by
  unfold cancelAckWaitForGeneration
  split
  · exact .some rfl
  · exact .some ((issued_cons_armed rfl).trans (issued_cons_armed rfl).symm)

theorem Sound.replays (h : Sound slack e) (hstage : e.stage = .ready) : e.protocol = .replay := by
  have hcontrol : e.control.stage = .ready := hstage
  cases h.1 with
  | resting _ _ _ _ _ _ _ hreplay => exact hreplay hstage
  | waiting _ _ hwaits =>
    rw [hcontrol] at hwaits
    cases hwaits
  | delayed _ hstage' | stranded _ _ hstage' => cases hstage.symm.trans hstage'
  | leftover _ _ stage _ _ hstage' => cases stage <;> cases hstage.symm.trans hstage'

/-- An answer that was accepted, and whose operation is done. -/
structure Checked (slack : Prop) (e : SessionEngine) (proof : SourceProof) (materialized : Cursor)
    (comparisons : List BoundComparison) (toHead : Comparison) : Prop where
  calm : e.Calm
  protocol : e.protocol = .replay
  stage : e.stage = .checkingTail
  proof_eq : e.proof = some proof
  materialized_eq : e.materialized = some materialized
  head : relation comparisons materialized proof.head proof = .ok toHead
  ne_after : toHead ≠ .after
  told : e.tailTold proof comparisons = false → slack

section

variable {proof : SourceProof} {materialized : Cursor} {comparisons : List BoundComparison}
  {toHead : Comparison}

theorem sound_setReadyOrWait (h : Checked slack e proof materialized comparisons toHead) :
    Safe slack (e.setReadyOrWait comparisons) e := by
  obtain ⟨hcalm, hprotocol, hstage, hproof, hm, hhead, hafter, htold⟩ := h
  have hscan : Safe slack e.startScan e := sound_startScan hcalm hprotocol
  have hstranded (hs : slack) : Sound slack e := sound_stranded hs hcalm hprotocol hstage
  unfold setReadyOrWait
  split
  · rename_i hproof' hm'
    cases hproof.symm.trans hproof'
    cases hm.symm.trans hm'
    have htold' (hequal : toHead = .equal) : e.tailTold proof comparisons =
        ((e.target.all fun target => (relation comparisons materialized target proof).isOk) &&
          (e.snapshot.bind SnapshotProgress.attachHead).all fun head =>
            (relation comparisons materialized head proof).isOk) := by
      unfold tailTold
      rw [hm, Option.all_some, hhead, hequal]
    split
    · rename_i herror
      cases hhead.symm.trans herror
    · exact hscan
    · rename_i hlate
      cases hhead.symm.trans hlate
      exact absurd rfl hafter
    · rename_i hapart
      exact absurd hapart relation_ne_incomparable
    rename_i hequal
    cases hhead.symm.trans hequal
    rw [htold' rfl] at htold
    split
    · rename_i htarget
      obtain ⟨target, ht, herror⟩ := Option.map_eq_some_iff.mp htarget
      refine still (hstranded (htold ?_)) rfl
      rw [ht, Option.all_some, herror]
      rfl
    · exact still (.rest { hcalm with } rfl) rfl
    · split
      · rename_i hany
        cases hp : e.snapshot with
        | none => simp [hp] at hany
        | some p => simp [hp, hcalm.attached p hp] at hany
      · split
        · rename_i hhead'
          obtain ⟨head, ht, herror⟩ := Option.map_eq_some_iff.mp hhead'
          refine still (hstranded (htold ?_)) rfl
          rw [ht, Option.all_some, herror]
          exact Bool.and_false _
        · exact hscan
        · split
          · exact sound_checkTail hcalm.idle hprotocol hcalm.attached hcalm.steady
          obtain ⟨_, _, _, hspec, hfinish⟩ :=
            finishSnapshot_spec { e with stage := .ready, ready := true, retries := 0 }
          generalize finishSnapshot { e with stage := .ready, ready := true, retries := 0 } =
            c at hspec hfinish ⊢
          obtain ⟨e₁, effects⟩ := c
          subst hspec
          refine .some
            ⟨fun _ => sound_ready ⟨hcalm.out, hcalm.due, hcalm.undelayed⟩ hprotocol rfl rfl
            (Steady.dropped (f := e.frame) hcalm.steady), hfinish.map rfl ?_⟩
          exact (issued_append_arming _ _ _).symm
  · rename_i hnone
    exact absurd hm (hnone _ _ hproof)

theorem sound_goOn (h : Checked slack e proof materialized comparisons toHead) :
    Safe slack (e.goOn toHead comparisons) e := by
  unfold goOn
  split
  · exact sound_startScan h.calm h.protocol
  · exact sound_setReadyOrWait h

end

theorem sound_tailGap {timer : Effect} (htimer : ∀ c, timer.issues? c = none) (h : e.Calm) :
    Safe slack (e.tailGap timer) e := by
  unfold tailGap
  split
  · exact sound_abortSnapshot h.undelayed h.steady
  split
  · obtain ⟨_, _, _, hspec, hcancel⟩ :=
      cancelSnapshotResources_spec { e with stage := .needsSnapshot }
    generalize cancelSnapshotResources { e with stage := .needsSnapshot } = c at hspec hcancel ⊢
    obtain ⟨e₁, effects⟩ := c
    subst hspec
    exact .some ⟨fun _ => .rest ⟨h.out, h.due, h.undelayed, h.shut, attached_of_none rfl,
      Steady.dropped (f := e.frame) h.steady⟩ rfl,
        hcancel.map rfl (List.filterMap_cons_none (htimer _)).symm⟩
  · have hgap : Sound slack { e with stage := e.mode.gapStage } := by
      refine .rest { h with } ?_
      cases e.mode <;> rfl
    dsimp only
    split
    · exact .chain (sound_startSnapshot hgap (.of_eq rfl)) fun r hr =>
        .some ⟨hr.1, hr.2.map rfl (List.filterMap_cons_none (htimer _)).symm⟩
    · refine .some ⟨fun _ => hgap, .quiet rfl ?_⟩
      exact (List.filterMap_cons_none (htimer _)).trans
        (List.filterMap_cons_none (e.mode.gapEffect_issues _))

theorem sound_tailCovered {proof : SourceProof} {materialized : Cursor}
    {comparisons : List BoundComparison} {toHead : Comparison} {timer : Effect}
    (htimer : ∀ c, timer.issues? c = none) (hinted : Bool)
    (h : Checked slack e proof materialized comparisons toHead) :
    Safe slack (e.tailCovered timer hinted toHead comparisons) e := by
  have hcons (c : Option Operation) (fx : List Effect) : issued c (timer :: fx) = issued c fx :=
    List.filterMap_cons_none (htimer c)
  refine safe_of_known fun hk => ?_
  unfold tailCovered
  refine .chain (sound_goOn h) fun ⟨e₁, next⟩ h₁ => ?_
  have hsound := h₁.sound hk
  dsimp only
  split
  · rename_i hnow
    have hidle₁ := hsound.idle (Option.isNone_iff_eq_none.mp hnow.2.1) (hnow.2.2 ▸ nofun)
    have hchecked : Safe slack (checkTail { e₁ with pendingTail := false })
        { e₁ with pendingTail := false } :=
      sound_checkTail ⟨hidle₁.out, hidle₁.due, hidle₁.undelayed⟩ (hsound.replays hnow.2.2)
        (hsound.attached hidle₁.out) hsound.2
    refine .bind fun ⟨e₂, followup⟩ hcheck => ?_
    have h₂ := hchecked _ hcheck
    have hsame := checkTail_issued e₁.base.cleanupOp e.base.cleanupOp _ hcheck
    refine .some ⟨fun _ => h₂.1 ((h₁.turn hk).known hk), h₁.turn.trans followup h₂.2 (.of_eq ?_)⟩
    show _ = issued e.base.cleanupOp (timer :: (next.effects ++ followup.effects))
    rw [hcons, issued_append]
    exact congrArg _ hsame
  · exact .some ⟨h₁.1, h₁.turn.map rfl (hcons _ _).symm⟩

theorem sound_tail (h : Sound slack e) (proof : SourceProof) (comparisons : List BoundComparison)
    (htold : e.tailTold proof comparisons = false → slack) :
    Safe slack (e.tail op proof comparisons) e := by
  unfold tail
  refine h.matched fun ha => ?_
  obtain ⟨hstage, hfit, -⟩ := ha.fits rfl
  have hcalm : e.settle.Calm := ⟨rfl, rfl, ha.undelayed, ha.shut, hfit.attached rfl, h.2⟩
  split
  · exact still h rfl
  split
  · have hgap : Sound slack { e.settle with stage := e.mode.gapStage } := by
      refine .rest { hcalm with } ?_
      cases e.mode <;> rfl
    dsimp only
    split
    · exact sound_startSnapshot hgap (.of_eq rfl)
    · exact .some ⟨fun _ => hgap, .quiet rfl (List.filterMap_cons_none (e.mode.gapEffect_issues _))⟩
  · rename_i materialized hm
    split
    · exact sound_abortSnapshot ha.undelayed h.2
    split
    · exact still h rfl
    rename_i toHead toLow haccept
    obtain ⟨hhead, hafter, -⟩ := acceptTail_spec haccept
    refine .bind fun scheduled hscheduled => ?_
    rcases recordTailSchedule_cases hscheduled with ⟨idle, rfl⟩ | ⟨idle, fresh, poll, rfl⟩
    · exact sound_idleExhausted hcalm.attached h.2
    dsimp only
    split
    · exact sound_tailGap (fun _ => rfl) { hcalm with }
    · exact sound_tailCovered (fun _ => rfl) _ ⟨{ hcalm with }, hfit.replay rfl, hstage, rfl, hm,
        hhead, hafter, htold⟩

/-! ## Replay -/

theorem outstanding_of_acceptBatch {batch : Batch} (h : e.acceptBatch op batch = .ok ()) :
    e.outstanding = some (op, .scanning) := by
  unfold acceptBatch at h
  split at h
  · cases h
  · exact outstanding_of_matchesOp ‹_›

theorem sound_scanned (h : Sound slack e) (batch : Batch) (hslack : e.broke = true → slack) :
    Safe slack (e.scanned op batch) e := by
  unfold scanned
  split
  · exact still h rfl
  rename_i haccept
  have ha := h.answered (outstanding_of_acceptBatch haccept)
  refine sound_ask rfl ha.undelayed ha.shut (fun _ _ => rfl) (fun _ => ⟨rfl, rfl⟩) (fun _ => ?_) h.2
    fun hb => still ?_ rfl
  · exact fit_of_replays rfl (ha.fit.replay rfl) (ha.fit.attached rfl)
  · exact ha.linger (hslack hb) rfl hb rfl (ha.fit.mono fun _ => trivial) h.2

theorem sound_applied (h : Sound slack e) (receipt : ApplyReceipt) :
    Safe slack (e.applied op receipt) e := by
  unfold applied
  refine h.matched fun ha => ?_
  obtain ⟨hstage, hfit, -⟩ := ha.fits rfl
  split
  · exact still h rfl
  split
  · exact still h rfl
  · exact sound_checkTail ⟨rfl, rfl, ha.undelayed⟩ (hfit.replay rfl) (hfit.attached rfl) h.2

theorem sound_hint (h : Sound slack e) : Safe slack e.hint e := by
  unfold hint
  split
  · split
    · exact sound_pollSubscriber h
    · exact still h rfl
  rename_i hreplay
  split
  · exact still h rfl
  · rename_i hdeaf
    exact sound_requestTail (e := e.forceHotNext) h (protocol_eq_replay hreplay)
      (deaf_retryWait hdeaf)

theorem acceptDemand_spec {cursor target : Cursor} {comparison : Option BoundComparison}
    (h : e.acceptDemand cursor comparison = .ok target) :
    e.protocol = .replay ∧ e.stage.deaf = false := by
  unfold acceptDemand at h
  split at h
  · cases h
  rename_i hcond
  simp only [not_or, Bool.not_eq_true] at hcond
  exact ⟨protocol_eq_replay hcond.1, hcond.2⟩

section

variable (h : Sound slack e)

include h

theorem sound_demand (cursor : Cursor) (comparison : Option BoundComparison) :
    Safe slack (e.demand cursor comparison) e := by
  unfold demand
  split
  · exact still h rfl
  rename_i target haccept
  obtain ⟨hprotocol, hdeaf⟩ := acceptDemand_spec haccept
  refine sound_requestTail (e := { e.forceHotNext with target := some target }) h hprotocol
    (deaf_retryWait (e := e) ?_)
  rw [hdeaf]
  nofun

/-- A replay that rests has nothing under way, or has left its operation behind. -/
theorem Sound.parked (hprotocol : e.protocol = .replay) (hwaits : e.stage.waits = false)
    (hretry : e.stage ≠ .retryWait) : e.Attached ∧ (e.Idle ∨ e.stage = .unready) := by
  cases h.1 with
  | waiting _ _ hwaits' => cases hwaits.symm.trans hwaits'
  | delayed _ hstage => exact absurd hstage hretry
  | resting hout | stranded _ hout => exact ⟨h.attached hout, .inl (h.idle hout hretry)⟩
  | leftover _ op stage _ hlingers hstage _ _ _ _ _ _ hfit =>
    refine ⟨hfit.attached (by cases stage <;> first | rfl | cases hlingers), .inr ?_⟩
    -- a subscription does not replay
    have hunnamed : stage.follows = false := by
      refine Bool.eq_false_of_not_eq_true fun hfollows => ?_
      obtain ⟨p, hp, -⟩ := hfit.needs hfollows
      cases hprotocol.symm.trans (h.named hp)
    refine hstage.trans ?_
    cases stage <;>
      first | rfl | exact absurd hlingers (by decide) | exact absurd hunnamed (by decide)

theorem sound_resume (cursor : Cursor) : Safe slack (e.resume cursor) e := by
  unfold resume
  split
  · exact still h rfl
  rename_i hcond
  split
  · exact still h rfl
  rename_i hstage
  simp only [not_not, List.mem_cons, List.not_mem_nil, or_false] at hstage
  have hprotocol : e.protocol = .replay := protocol_eq_replay fun hs => hcond (.inl hs)
  have hwaits : e.stage.waits = false ∧ e.stage ≠ .retryWait := by
    rcases hstage with h | h | h | h | h <;> rw [h] <;> exact ⟨rfl, nofun⟩
  obtain ⟨hattached, hlast⟩ := h.parked hprotocol hwaits.1 hwaits.2
  exact sound_resumeState h hprotocol hattached cursor true fun _ => hlast

theorem sound_invalidated : Safe slack (e.invalidated op) e := by
  unfold invalidated
  split <;> exact still h rfl

theorem sound_closeGate : Good slack e.base e.closeGate := by
  obtain ⟨stage, revokeOp, nextToken, heq, hspent, hkept, hgate⟩ := closeGate_spec e
  refine ⟨fun _ => ?_, hgate⟩
  cases hready : e.ready with
  | false =>
    rw [closeGate_of_shut hready]
    exact h
  | true =>
    obtain ⟨hidle, hstage, hprotocol, hsnapshot⟩ := h.open hready
    rw [heq]
    by_cases hr : e.closeGate.2.rejection.isSome = true
    · obtain ⟨rfl, -⟩ := hspent hr
      exact .rest ⟨hidle.out, hidle.due, hidle.undelayed, rfl, attached_of_none hsnapshot, h.2⟩ rfl
    · exact sound_ready ⟨hidle.out, hidle.due, hidle.undelayed⟩ hprotocol hsnapshot
        ((hkept hr).trans hstage) h.2

theorem sound_authority (allowed : Bool) : Safe slack (e.authority allowed) e := by
  unfold authority
  split
  · exact still h rfl
  rename_i hreplay
  dsimp only
  generalize he : (if e.modeAuthority ≠ allowed then
    forceHotNext { e with modeAuthority := allowed } else { e with modeAuthority := allowed }) = e₁
  have h₁ : Sound slack e₁ := by
    rw [← he]
    split <;> exact h
  have hbase : e₁.base = e.base := by
    rw [← he]
    split <;> rfl
  have hprotocol : e₁.protocol = .replay := by
    rw [← he]
    split <;> exact protocol_eq_replay hreplay
  show Ensures _ (Good slack e.base)
  rw [← hbase]
  split
  · rename_i hcond
    refine sound_requestTail h₁ hprotocol (deaf_retryWait ?_)
    rw [hcond.2.2.2]
    nofun
  · split
    · exact still h₁ rfl
    have hgate := sound_closeGate h₁
    exact .some ⟨hgate.1, hgate.2.map rfl (issued_append_arming _ _ _).symm⟩

end

/-! ## Failures and the clock -/

theorem Answered.waits (h : Answered slack e op stage) : stage.waits = true := by
  rcases h.here with ⟨-, hwaits, -⟩ | ⟨-, -, hlingers, -⟩
  · exact hwaits
  · cases stage <;> first | rfl | exact nomatch hlingers

theorem failing_of_outstanding (h : e.outstanding = some (op, stage)) :
    e.failing op = some stage := by
  unfold failing
  rw [h, Option.bind_some, if_pos rfl]

/-- What fails without a snapshot and without a subscription is part of the replay. -/
theorem Answered.replays (h : Answered slack e op stage) (hnone : e.snapshot = none)
    (hsubscribing : subscribing stage = false) : stage.replays = true := by
  have hrecovers : stage.recovers = false := by
    refine Bool.eq_false_of_not_eq_true fun hr => ?_
    obtain ⟨p, hp, -⟩ := h.fit.recovers hr
    cases hnone.symm.trans hp
  have hwaits := h.waits
  rwa [Stage.waits, hrecovers, hsubscribing, Bool.or_false, Bool.or_false] at hwaits

theorem sound_failReplay (h : Sound slack e)
    (hreplays : ∀ stage, e.failing op = some stage → subscribing stage = false) :
    Safe slack (e.failReplay op) e := by
  unfold failReplay
  split
  · exact still h rfl
  rename_i hall
  obtain ⟨stage, hout⟩ : ∃ stage, e.outstanding = some (op, stage) := by
    cases ho : e.outstanding with
    | none => simp [ho] at hall
    | some current => exact ⟨current.2, by simp [ho] at hall; rw [← hall]⟩
  have ha := h.answered hout
  dsimp only
  split
  · exact sound_abortSnapshot ha.undelayed h.2
  rename_i hnone
  have hnone : e.snapshot = none := eq_none_of_isSome (Bool.eq_false_of_not_eq_true hnone)
  have hattached := attached_of_none hnone
  have hprotocol : e.protocol = .replay :=
    ha.fit.replay (ha.replays hnone (hreplays stage (failing_of_outstanding hout)))
  rw [closeGate_of_shut (e := e.forceHotNext) ha.shut]
  rw [if_neg nofun]
  split
  · exact still (.rest ⟨rfl, rfl, rfl, ha.shut, hattached, h.2⟩ rfl) rfl
  split
  · exact still (.rest ⟨rfl, rfl, ha.undelayed, ha.shut, hattached, h.2⟩ rfl) rfl
  refine .some
    ⟨fun _ => ⟨.delayed rfl rfl rfl rfl ha.shut hnone (fit_of_replays ?_ hprotocol hattached), h.2⟩,
    .quiet rfl rfl⟩
  dsimp only [control]
  split <;> rfl

theorem failSubscriberTerminal_isSome
    (hstage : stage = .terminatingSubscriber ∨ stage = .readingSubscriberTerminal)
    (h : e.failing op = some stage) : (e.failSubscriberTerminal op).isSome = true := by
  unfold failSubscriberTerminal
  rw [h]
  rcases hstage with rfl | rfl
  · dsimp only
    split
    · rfl
    · split <;> rfl
  · dsimp only
    split
    · rfl
    split
    · rfl
    · split <;> rfl

theorem subscribing_of_failed (hterminal : e.failSubscriberTerminal op = none)
    (hdelivery : e.failSubscriptionDelivery op = none) (hregister : e.failSubscription op = none)
    (h : e.failing op = some stage) : subscribing stage = false := by
  have hterminal' (hs : stage = .terminatingSubscriber ∨ stage = .readingSubscriberTerminal) :
      False := by
    have := failSubscriberTerminal_isSome hs h
    rw [hterminal] at this
    cases this
  unfold failSubscriptionDelivery at hdelivery
  unfold failSubscription at hregister
  rw [h] at hdelivery hregister
  cases stage with
  | terminatingSubscriber => exact (hterminal' (.inl rfl)).elim
  | readingSubscriberTerminal => exact (hterminal' (.inr rfl)).elim
  | _ => first
    | rfl
    | exact absurd hdelivery (Option.some_ne_none _)
    | exact absurd hregister (Option.some_ne_none _)

theorem sound_failed (h : Sound slack e) : Safe slack (e.failed op) e := by
  unfold failed
  split
  · exact sound_failSubscriberTerminal h ‹_›
  · exact sound_failSubscriptionDelivery h ‹_›
  · exact sound_failSubscription h ‹_›
  rename_i hterminal hdelivery hregister
  split
  · exact sound_expireSnapshotCleanup h
  · exact sound_failReplay h fun stage hfailing =>
      subscribing_of_failed hterminal hdelivery hregister hfailing

/-- A retry takes up what it waits for. -/
theorem sound_retry (h : e.Calm) (hfit : Fit e.data (e.broke = true) e.retryTarget.stage) :
    Safe slack e.retry e := by
  have hneeds (hfollows : e.retryTarget.stage.follows = true) :
      ∃ p, e.Subscribes p ∧ Needs (e.broke = true) p e.retryTarget.stage := by
    obtain ⟨p, hp, hneeds⟩ := hfit.needs hfollows
    exact ⟨p, ⟨h.shut, h.steady, hp⟩, hneeds⟩
  unfold retry
  split
  · rename_i htarget
    rw [htarget] at hfit
    exact sound_loadCheckpoint h (hfit.replay rfl)
  · rename_i htarget
    rw [htarget] at hfit
    exact sound_checkTail h.idle (hfit.replay rfl) h.attached h.steady
  · rename_i htarget
    obtain ⟨p, hs, hneeds⟩ := hneeds (htarget ▸ rfl)
    exact sound_retrySubscription h.idle hs hneeds (.inl htarget)
  · rename_i htarget
    obtain ⟨p, hs, hneeds⟩ := hneeds (htarget ▸ rfl)
    exact sound_retrySubscription h.idle hs hneeds (.inr (.inl htarget))
  · rename_i htarget
    obtain ⟨p, hs, hneeds⟩ := hneeds (htarget ▸ rfl)
    exact sound_retrySubscription h.idle hs hneeds (.inr (.inr htarget))
  · rename_i htarget
    obtain ⟨p, hs, hneeds⟩ := hneeds (htarget ▸ rfl)
    exact sound_retrySubscriptionDelivery h.idle hs hneeds (.inl htarget)
  · rename_i htarget
    obtain ⟨p, hs, hneeds⟩ := hneeds (htarget ▸ rfl)
    exact sound_retrySubscriptionDelivery h.idle hs hneeds (.inr htarget)
  rename_i htarget
  obtain ⟨p, hs, hneeds⟩ := hneeds (htarget ▸ rfl)
  rw [htarget] at hneeds
  exact sound_readSubscriberTerminal h.undelayed hs hneeds

section

variable (h : Sound slack e)

include h

theorem Sound.delayed {due : Time} (hdue : e.retryDue = some due) :
    Calm { e with retryDue := none } ∧ e.snapshot = none ∧
      Fit e.data (e.broke = true) e.retryTarget.stage := by
  have hsome : e.control.delayed = true := congrArg Option.isSome hdue
  cases h.1 with
  | delayed hout _ htimed _ hready hsnapshot hfit =>
    exact ⟨⟨hout, eq_none_of_isSome htimed, rfl, hready, attached_of_none hsnapshot, h.2⟩,
      hsnapshot, hfit⟩
  | waiting _ _ _ _ hdelayed | resting _ _ _ _ hdelayed | leftover _ _ _ _ _ _ _ hdelayed
  | stranded _ _ _ _ hdelayed => cases hsome.symm.trans hdelayed

theorem Sound.staged_undelayed (hs : e.snapshot.isSome = true) : e.retryDue = none := by
  cases hdue : e.retryDue with
  | none => rfl
  | some due =>
    obtain ⟨-, hnone, -⟩ := h.delayed hdue
    rw [hnone] at hs
    cases hs

theorem retryWait_of_undelayed (hdue : e.retryDue = none) : e.stage ≠ .retryWait := by
  intro hstage
  have hcontrol : e.control.stage = .retryWait := hstage
  cases h.1 with
  | delayed _ _ _ hdelayed => cases (congrArg Option.isSome hdue).symm.trans hdelayed
  | waiting _ _ hwaits =>
    rw [hcontrol] at hwaits
    cases hwaits
  | resting _ _ hne => exact hne hstage
  | leftover _ _ stage _ hlingers hleft =>
    cases stage <;> first | exact absurd hlingers (by decide) | cases hstage.symm.trans hleft
  | stranded _ _ hstage' => cases hstage.symm.trans hstage'

theorem sound_tickReplayProgress (now : Time) : Safe slack (e.tickReplayProgress now) e := by
  unfold tickReplayProgress
  split
  · rename_i hexpired
    have hdue : e.terminalDue ≠ none := by
      intro hnone
      have hexpired := hexpired.1
      unfold subscriberTerminalDue at hexpired
      split at hexpired
      iterate 4 cases hexpired
      rw [hnone] at hexpired
      cases hexpired
    unfold terminalDue at hdue
    cases hp : e.subscription with
    | none =>
      rw [hp] at hdue
      exact absurd rfl hdue
    | some p => exact sound_expireSubscriberTerminal (h.subscribes hp)
  · split
    · exact sound_expireSnapshotCleanup h
    split
    · rename_i hany
      refine sound_abortSnapshot (h.staged_undelayed ?_) h.2
      cases hp : e.snapshot with
      | none => simp [hp] at hany
      | some p => rfl
    · split
      · exact still h rfl
      split
      · exact sound_failed h
      split
      · rename_i due hdue
        split
        · obtain ⟨hcalm, -, hfit⟩ := h.delayed hdue
          exact sound_retry hcalm hfit
        · exact still h rfl
      · rename_i hdue
        have hretry := retryWait_of_undelayed h hdue
        split
        · split
          · exact sound_pollSubscriber h
          · exact still h rfl
        rename_i hmode
        split
        · refine sound_requestTail h (protocol_eq_replay fun hs => hmode (h.2.named hs)) hretry
        · exact still h rfl

theorem sound_tickReplay (now : Time) : Safe slack (e.tickReplay now) e := by
  have hfresh : Good slack e.base e.expireFreshness := by
    unfold expireFreshness
    split
    · exact ⟨fun _ => h, .quiet rfl rfl⟩
    · exact sound_closeGate h
  have hcleanup : e.expireFreshness.1.base.cleanupOp = e.base.cleanupOp := by
    unfold expireFreshness
    split
    · rfl
    · obtain ⟨_, _, _, heq, -⟩ := closeGate_spec e
      rw [heq]
      rfl
  refine safe_of_known fun hk => ?_
  unfold tickReplay
  generalize e.expireFreshness = c at hfresh hcleanup ⊢
  obtain ⟨e₁, freshness⟩ := c
  refine .chain (sound_tickReplayProgress (hfresh.1 hk) now) fun ⟨e₂, ordinary⟩ h₂ =>
    .some ⟨fun _ => h₂.1 ((hfresh.2 hk).known hk), hfresh.2.trans ordinary h₂.2 (.of_eq ?_)⟩
  rw [hcleanup]
  split
  · rename_i hempty
    rw [List.isEmpty_iff.mp hempty]
    rfl
  · rw [issued_append, issued_append, issued_armed, List.append_nil]

theorem Sound.later {now : Time} (hnow : e.now ≤ now) : Sound slack { e with now := now } := by
  refine h.aside ⟨rfl, fun hb => ?_, rfl, rfl⟩
  have hb : e.broke = true := hb
  unfold broke at hb ⊢
  rw [decide_eq_true_eq] at hb ⊢
  exact hb.imp_right fun ht => lt_of_lt_of_le ht (Nat.add_le_add_right hnow _)

theorem sound_tick (now : Time) : Safe slack (e.tick now) e := by
  unfold tick
  split
  · exact still h rfl
  rename_i hnow
  have hlater := h.later (Nat.le_of_not_lt hnow)
  refine .chain beside_tickAckWait fun ⟨e₁, ack⟩ h₁ => ?_
  have hcleanup : e₁.base.cleanupOp = e.base.cleanupOp := congrArg Control.cleanup h₁.1.control
  refine .chain (sound_tickReplay (hlater.aside h₁.1) now) fun ⟨e₂, ordinary⟩ h₂ =>
    .some ⟨fun hk => h₂.1 ((h₁.2 hk).known hk), ?_⟩
  refine h₁.2.trans ordinary h₂.2 (.trans ?_ (.of_eq (issued_append_arming _ _ _).symm))
  rw [hcleanup, issued_append]
  exact List.perm_append_comm

/-! ## The table -/

theorem sound_cancel (hplain : stage.plain = true) : Safe slack (e.cancel stage) e := by
  obtain ⟨_, _, _, hspec, hcancel⟩ := cancelSnapshotResources_spec e
  have hframe : e.cancelSnapshotResources.1.frame = { e.frame with snapshot := none } := by
    rw [hspec]
    rfl
  clear hspec
  unfold cancel
  generalize e.cancelSnapshotResources = c at hframe hcancel ⊢
  obtain ⟨e₁, cleanup⟩ := c
  refine .bind fun ⟨e₂, ack⟩ hended => ?_
  obtain ⟨haside, hack⟩ := beside_cancelAckWaitForGeneration _ hended
  have hsame := cancelAckWaitForGeneration_issued e₁.base.cleanupOp e.base.cleanupOp _ hended
  have hframe : e₂.frame = { e.frame with snapshot := none } := haside.frame.trans hframe
  have hboth : Turn e.base (e₂, ⟨cleanup ++ ack.effects, none⟩) :=
    hcancel.trans ack hack (.of_eq ((congrArg _ hsame).trans (issued_append _ _ _).symm))
  clear haside hack
  have hsteady : Steady { e₂.frame with subscription := none } := by
    rw [hframe]
    exact h.2.ended
  have hnone : e₂.snapshot = none := congrArg Frame.snapshot hframe
  have hattached := attached_of_none hnone
  dsimp only
  split
  · refine .some ⟨fun _ => .rest ⟨rfl, rfl, rfl, rfl, hattached, hsteady⟩ rfl, hboth.map rfl ?_⟩
    have hrevoke : issued e.base.cleanupOp
        (if e₂.ready = true then [Effect.revokeServingUnconfirmed] else []) = [] := by
      split <;> rfl
    rw [List.append_assoc, issued_append _ (if e₂.ready = true then _ else _), hrevoke]
    rfl
  rename_i generation _
  obtain ⟨stage', _, _, hspec, hspent, hkept, hgate⟩ :=
    closeGate_spec { e₂.endGeneration stage with generation := generation }
  have hsame := closeGate_issued { e₂.endGeneration stage with generation := generation }
    e₂.base.cleanupOp e.base.cleanupOp
  generalize closeGate { e₂.endGeneration stage with generation := generation } = c
    at hspec hspent hkept hgate hsame ⊢
  obtain ⟨e₃, closed⟩ := c
  subst hspec
  refine .some ⟨fun _ => .rest ⟨rfl, rfl, rfl, rfl, hattached, hsteady⟩ ?_,
    hboth.trans closed hgate ?_⟩
  · by_cases hr : closed.rejection.isSome = true
    · obtain ⟨rfl, -⟩ := hspent hr
      rfl
    · obtain rfl := hkept hr
      exact hplain
  · dsimp only
    rw [List.append_assoc, issued_append _ closed.effects, ← hsame]
    exact List.perm_append_comm

end

def slips (e : SessionEngine) : Event → Bool
  | .checkpointLoaded .. | .scanned .. | .subscriberScanned .. | .subscriberApplied ..
  | .subscriberAckRead .. => e.broke
  | .tail _ proof comparisons => !e.tailTold proof comparisons
  | _ => false

theorem sound_step (h : Sound slack e) (event : Event) (hslack : e.slips event = true → slack) :
    Safe slack (e.step event) e := by
  cases event with
  | beginSubscriberTerminal requestId due => exact sound_beginSubscriberTerminal h requestId due
  | subscriberTerminalCommitted op receipt => exact sound_subscriberTerminalCommitted h receipt
  | subscriberTerminalRead op receipt => exact sound_subscriberTerminalRead h receipt
  | pollSubscriber => exact sound_pollSubscriber h
  | subscriberTail op proof comparisons => exact sound_subscriberTail h proof comparisons
  | subscriberScanned op batch => exact sound_subscriberScanned h batch hslack
  | subscriberApplied op receipt throughToSink previousToSink =>
    exact sound_subscriberApplied h receipt throughToSink previousToSink hslack
  | subscriberAcked op receipt => exact sound_subscriberAcked h receipt (.inl rfl)
  | subscriberAckRead op receipt => exact sound_subscriberAckRead h receipt hslack
  | resumeSubscription request limits => exact sound_resumeSubscription h request limits
  | startDetachedSubscriberTerminal key requestId due limits =>
    exact sound_startDetachedSubscriberTerminal h key requestId due limits
  | currentSubscriberRead op state => exact sound_currentSubscriberRead h state
  | subscriberRejected op error => exact sound_subscriberRejected h error
  | startSubscription request limits => exact sound_startSubscription h request limits
  | subscriberRegistered op receipt => exact sound_acceptRegistration h (.inl rfl) receipt
  | subscriberRegistrationRead op receipt => exact sound_subscriberRegistrationRead h receipt
  | sinkEpochBound op checkpoint sourceToSink sinkToHead =>
    exact sound_sinkEpochBound h checkpoint sourceToSink sinkToHead
  | activity =>
    refine .ite (fun _ => still h rfl) fun hs => sound_activity h (protocol_eq_replay hs)
  | startAckWait request limits =>
    exact (beside_startAckWait request limits).mono fun _ ha => ⟨fun _ => h.aside ha.1, ha.2⟩
  | ackObserved evidence =>
    exact (beside_observeAck evidence).mono fun _ ha => ⟨fun _ => h.aside ha.1, ha.2⟩
  | ackChecked op => exact (beside_ackChecked op).mono fun _ ha => ⟨fun _ => h.aside ha.1, ha.2⟩
  | ackAuthorityLost op =>
    exact (beside_endAckWait op AckWait.authorityLost_op).mono fun _ ha =>
      ⟨fun _ => h.aside ha.1, ha.2⟩
  | cancelAckWait op =>
    exact (beside_endAckWait op AckWait.cancel_op).mono fun _ ha => ⟨fun _ => h.aside ha.1, ha.2⟩
  | startSnapshot => exact sound_startSnapshot h (.of_eq rfl)
  | snapshotHeld op receipt => exact sound_snapshotHeld h receipt
  | snapshotOffered op offer => exact sound_snapshotOffered h offer
  | snapshotOpened op charged => exact sound_snapshotOpened h charged
  | snapshotRead op chunk => exact sound_snapshotRead h chunk
  | snapshotWritten op index through charged => exact sound_snapshotWritten h index through charged
  | snapshotVerified op charged => exact sound_snapshotVerified h charged
  | snapshotBarrier op proof comparisons => exact sound_snapshotBarrier h proof comparisons
  | snapshotScanned op batch => exact sound_snapshotScanned h batch
  | snapshotApplied op through charged => exact sound_snapshotApplied h through charged
  | snapshotSealed op through payloadId charged =>
    exact sound_snapshotSealed h through payloadId charged
  | snapshotInstalled op receipt => exact sound_snapshotInstalled h receipt
  | snapshotAttached op proof comparisons => exact sound_snapshotAttached h proof comparisons
  | snapshotCleaned op => exact sound_snapshotCleaned h op
  | snapshotDiscarded op disposition => exact sound_snapshotDiscarded h op disposition
  | startBootstrap =>
    exact .ite (fun _ => still h rfl) fun hs => sound_startBootstrap h (protocol_eq_replay hs)
  | checkpointLoaded op cursor payloadId => exact sound_checkpointLoaded h cursor payloadId hslack
  | checkpointInstalled op receipt => exact sound_checkpointInstalled h receipt
  | resume cursor => exact sound_resume h cursor
  | hint => exact sound_hint h
  | demand cursor comparison => exact sound_demand h cursor comparison
  | tick now => exact sound_tick h now
  | tail op proof comparisons =>
    refine sound_tail h proof comparisons fun htold => hslack ?_
    show (!e.tailTold proof comparisons) = true
    rw [htold]
    rfl
  | scanned op batch => exact sound_scanned h batch hslack
  | applied op receipt => exact sound_applied h receipt
  | invalidated op => exact sound_invalidated h
  | authority allowed => exact sound_authority h allowed
  | failed op => exact sound_failed h
  | cancel | supersede => exact sound_cancel h rfl

end SessionEngine

end Groupnet.Replication
