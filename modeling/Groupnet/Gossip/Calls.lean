import Groupnet.Gossip.Ballot
import Groupnet.Gossip.Cut

/-!
# Every call is a row of touches

Each gossip function of the engine is a row of touches, and so is each event.  What
every touch keeps holds after every call, and whatever an engine sends it says from a
state that has what every touch keeps.
-/

namespace Groupnet

open Wire (Frame)

/-- Whether frames of a kind are for the election. -/
def Wire.Kind.isLead : Wire.Kind → Bool
  | .leadClaim | .leadGrant | .leadState | .leadResign => true
  | _ => false

/-- Whether a command moves the election. -/
def Command.isLead : Command → Bool
  | .leave | .anchorActivated .. | .anchorObserved .. => true
  | _ => false

namespace GroupEngine

variable {p : Powers} {now : Time} {c : Cause}

/-! ## Frames said -/

variable (e : GroupEngine)

theorem utters_livenessNotice (dest about : NodeId) (now : Time) :
    ∀ x ∈ e.livenessNotice dest about now, e.Utters p c x := by
  unfold livenessNotice
  split
  · simp
  next m hm =>
    intro x hx
    rw [List.mem_singleton.mp hx]
    refine .lines dest _ now rfl (.inr rfl) (.inl rfl) (.inr ⟨Nat.le_refl _, Nat.zero_le _⟩) ?_
    intro d hd
    rw [List.mem_singleton.mp hd]
    exact ⟨m, hm, rfl⟩

theorem utters_buildDeltaFrame (dest : NodeId) (wants : List (NodeId × Nat)) (now : Time) :
    ∀ x ∈ (match e.buildDeltaFrame wants now with
      | some delta => [Effect.send dest delta]
      | none => []), e.Utters p c x := by
  split
  next delta hdelta =>
    intro x hx
    rw [List.mem_singleton.mp hx]
    exact .delta dest delta wants now hdelta
  next => simp

theorem utters_buildDigestChunks (dest : NodeId) (nodes : List NodeId) (now : Time) :
    ∀ x ∈ (e.buildDigestChunks (nodes.filterMap fun node =>
      e.members[node]?.map fun m => e.summary node m now)).map fun frame => Effect.send dest frame,
      e.Utters p .clock x := by
  intro x hx
  obtain ⟨f, hf, rfl⟩ := List.mem_map.mp hx
  obtain ⟨hmembers, hlead, hmd, hhead, hcut, hdigest⟩ := of_mem_digestChunks hf
  refine .lines dest f now hmembers (.inr hlead) (hmd.imp_right fun hmd => ⟨rfl, hmd, hhead⟩)
    hcut ?_
  intro d hd
  obtain ⟨node, _, hnode⟩ := List.mem_filterMap.mp (hdigest d hd)
  obtain ⟨m, hm, rfl⟩ := Option.map_eq_some_iff.mp hnode
  exact ⟨m, hm, rfl⟩

theorem utters_sendDeltaRequest (dest : NodeId) (wants : List Wire.NodeWant) :
    e.Utters p c (e.sendDeltaRequest dest wants) := by
  refine .lines dest _ 0 rfl (.inr rfl) (.inl rfl) ?_ fun d hd => absurd hd List.not_mem_nil
  unfold CutTo
  rw [Wire.length_encode]
  have hcut := @cut_keepWants e.config.maxDeltaFrameBytes.val (Wire.deltaFrameOverhead e.group)
    (Wire.deltaFrameOverhead e.group) [] wants rfl (Or.inr (Nat.zero_le _))
  exact hcut.imp id fun hone => ⟨Nat.zero_le _, hone⟩

theorem utters_reconcile (source : NodeId) (digest : List Wire.NodeDigest) (now : Time) :
    ∀ x ∈ e.reconcile source digest now, e.Utters p c x := by
  intro x hx
  rcases List.mem_append.mp hx with hx | hx
  · split at hx
    · cases hx
    · rw [List.mem_singleton.mp hx]
      exact utters_sendDeltaRequest e source _
  · exact utters_buildDeltaFrame _ _ _ _ x hx

/-! ## Rounds -/

/-- Building the probe ring, whatever the cursors do. -/
theorem touches_ring {e e' : GroupEngine} (h : e'.bearing = e.probeRing.1.bearing)
    (helection : e'.election = e.probeRing.1.election) : Touches p now c e [] [] e' :=
  .cons .ringed (Touches.aside h (.inr helection))

theorem touched_digestTo (hdigests : p.digests) (dest : NodeId) :
    Touched p now .clock e (digestTo now e dest) := by
  unfold digestTo
  refine .sayAt (Trace.cons (Touch.digested dest rfl hdigests)
    (Touches.foldl fun _ node _ _ => .single (.hashed node))) ?_
  exact utters_buildDigestChunks _ _ _ _

theorem touched_disseminateDigest (hdigests : p.digests) :
    Touched p now .clock e (e.disseminateDigest now) :=
  Touched.of (.each fun e dest _ => touched_digestTo e hdigests dest)
    (touches_targets rfl (.inr rfl))

theorem touched_eagerPush : Touched p now c e e.eagerPush := by
  unfold eagerPush
  split
  · exact .refl e
  dsimp only
  split
  · exact .refl e
  next delta hdelta =>
    -- The frame is built before the targets are picked.
    refine Touched.map (Touched.sayAt .nil ?_) (touches_targets rfl (.inr rfl))
    intro x hx
    obtain ⟨dest, _, rfl⟩ := List.mem_map.mp hx
    exact .delta dest delta _ _ hdelta

/-! ## Merges -/

/-- What a pass over the sections of a frame has come to. -/
structure Passing (p : Powers) (now : Time) (f : Frame) (e : GroupEngine) (s : MergeState) :
    Prop where
  touches : ∃ owed, Touches p now (.frame f) e owed [] s.engine ∧ ∀ p ∈ owed, p ∈ s.stateChanged
  still : s.engine.still = e.still
  refutes : ∀ t, s.refuteTo = some t → ∃ incarnation, t = wrapAdd incarnation 1 ∧
    e.NamedAt f incarnation ∧ e.incarnation ≤ incarnation ∧ e.leaving = false

namespace Passing

variable {f : Frame} {e : GroupEngine} {s : MergeState}

theorem start (e : GroupEngine) : Passing p now f e ⟨e, false, [], none⟩ where
  touches := ⟨[], .nil, fun _ hp => absurd hp List.not_mem_nil⟩
  still := rfl
  refutes _ ht := nomatch ht

/-- A target is the successor of an incarnation at or above the engine's own. -/
theorem exists_of_selfRefuteTarget {status : Status} {incarnation t : Nat}
    (h : e.selfRefuteTarget status incarnation = some t) :
    t = wrapAdd incarnation 1 ∧ e.incarnation ≤ incarnation ∧ e.leaving = false := by
  unfold selfRefuteTarget at h
  split at h
  · cases h
  next hstay =>
    dsimp only at h
    split at h
    next hwhy =>
      refine ⟨(Option.some.inj h).symm, ?_, by simpa using hstay⟩
      simp only [Bool.or_eq_true, Bool.and_eq_true, decide_eq_true_eq] at hwhy
      omega
    · cases h

/-- One more target. -/
theorem refute (h : Passing p now f e s) {status : Status} {incarnation t : Nat}
    (hnamed : e.NamedAt f incarnation)
    (ht : s.engine.selfRefuteTarget status incarnation = some t) :
    Passing p now f e { s with refuteTo := maxTarget s.refuteTo t } := by
  obtain ⟨heq, hle, hstay⟩ := exists_of_selfRefuteTarget ht
  have hinc : s.engine.incarnation = e.incarnation := congrArg Still.incarnation h.still
  have hleaving : s.engine.leaving = e.leaving := congrArg Still.leaving h.still
  rw [hinc] at hle
  rw [hleaving] at hstay
  refine ⟨h.touches, h.still, ?_⟩
  intro t' ht'
  cases hwas : s.refuteTo with
  | none =>
    rw [hwas] at ht'
    cases ht'
    exact ⟨incarnation, heq, hnamed, hle, hstay⟩
  | some was =>
    rw [hwas] at ht'
    cases ht'
    rcases max_choice was t with hmax | hmax
    · rw [Option.map_some, Option.getD_some, hmax]
      exact h.refutes was hwas
    · rw [Option.map_some, Option.getD_some, hmax]
      exact ⟨incarnation, heq, hnamed, hle, hstay⟩

/-- One more row of touches. -/
theorem more (h : Passing p now f e s) {e' : GroupEngine} {owed : List (NodeId × String)}
    (changed : Bool) (ht : Touches p now (.frame f) s.engine owed [] e')
    (hstill : e'.still = s.engine.still) :
    Passing p now f e
      ⟨e', changed, s.stateChanged ++ owed, s.refuteTo⟩ := by
  obtain ⟨before, hbefore, hmem⟩ := h.touches
  refine ⟨⟨before ++ owed, hbefore.trans ht, ?_⟩, hstill.trans h.still, h.refutes⟩
  intro p hp
  rcases List.mem_append.mp hp with hp | hp
  · exact List.mem_append_left _ (hmem p hp)
  · exact List.mem_append_right _ hp

theorem line (h : Passing p now f e s) (hkind : f.kind = .digest) {d : Wire.NodeDigest}
    (hd : d ∈ f.digest) : Passing p now f e (mergeDigestLine now s d) := by
  have hid : s.engine.localId = e.localId := congrArg Still.localId h.still
  unfold mergeDigestLine
  split
  · exact h
  next status hstatus =>
    split
    next hself =>
      split
      next t ht => exact h.refute (.inl ⟨d, hd, hself.trans hid, rfl⟩) ht
      next => exact h
    next hne =>
      have hmore := h.more (s.membershipChanged ||
        (s.engine.mergeRemoteLiveness d.node d.incarnation status now).2)
        (.single (.heard f d status rfl hkind hd hstatus hne)) (still_mergeRemoteLiveness ..)
      rw [List.append_nil] at hmore
      exact hmore

theorem echoes {d : Wire.MemberDelta} {entries : List Wire.EntryDelta} (hkind : f.kind = .delta)
    (hd : d ∈ f.members) (hnode : d.node = e.localId)
    (hentries : ∀ entry ∈ entries, entry ∈ d.entries) :
    Touches p now (.frame f) e ((mergeOwnEchoes now e entries).2.map (Prod.mk e.localId)) []
      (mergeOwnEchoes now e entries).1 := by
  induction entries generalizing e with
  | nil => exact .nil
  | cons entry rest ih =>
    have hone : Touch p now (.frame f) e _ [] _ :=
      .echoed f d entry rfl hkind hd hnode (hentries entry (List.mem_cons_self ..))
    have hid : (e.mergeOwnEcho entry now).1.localId = e.localId :=
      congrArg Still.localId (still_mergeOwnEcho e entry now)
    have hmore := ih (hnode.trans hid.symm) fun en hen => hentries en (List.mem_cons_of_mem _ hen)
    rw [hid] at hmore
    unfold mergeOwnEchoes
    rw [List.map_append]
    exact .cons hone hmore

theorem section_ (h : Passing p now f e s) (hkind : f.kind = .delta) {d : Wire.MemberDelta}
    (hd : d ∈ f.members) : Passing p now f e (mergeMember now s d) := by
  have hid : s.engine.localId = e.localId := congrArg Still.localId h.still
  unfold mergeMember
  split
  · exact h
  next status hstatus =>
    split
    next hself =>
      have hechoes : Touches p now (.frame f) s.engine _ []
          (mergeOwnEchoes now s.engine d.entries).1 :=
        echoes hkind hd hself fun _ h => h
      split
      next t ht =>
        exact (h.refute (.inr ⟨d, hd, hself.trans hid, rfl⟩) ht).more s.membershipChanged hechoes
          (still_mergeOwnEchoes ..)
      next => exact h.more s.membershipChanged hechoes (still_mergeOwnEchoes ..)
    next hne =>
      exact h.more _ (.single (.merged f d status rfl hkind hd hstatus hne))
        (still_mergePeerDelta ..)

/-- A pass over a list of sections or lines. -/
theorem pass {α : Type} {g : MergeState → α → MergeState} {l : List α}
    (hg : ∀ s a, a ∈ l → Passing p now f e s → Passing p now f e (g s a))
    (h : Passing p now f e s) : Passing p now f e (l.foldl g s) :=
  List.foldlRecOn l g h fun s hs a ha => hg s a ha hs

theorem finish (h : Passing p now f e s) : Touched p now (.frame f) e (finishMerge s) := by
  obtain ⟨owed, htouches, hmem⟩ := h.touches
  have hrefuted : Touches p now (.frame f) s.engine [] []
      (s.engine.applyRefutation s.refuteTo).1 := by
    cases ht : s.refuteTo with
    | none => exact .nil
    | some t =>
      obtain ⟨incarnation, rfl, hnamed, hle, hstay⟩ := h.refutes t ht
      have hinc : s.engine.incarnation = e.incarnation := congrArg Still.incarnation h.still
      have hleaving : s.engine.leaving = e.leaving := congrArg Still.leaving h.still
      have hid : s.engine.localId = e.localId := congrArg Still.localId h.still
      refine .single (.refuted f incarnation rfl ?_ (hinc ▸ hle) (hleaving ▸ hstay))
      unfold NamedAt
      rw [hid]
      exact hnamed
  have hann : Touched p now (.frame f) s.engine (finishMerge s) := by
    unfold finishMerge
    refine Touched.andSay ?_ ?_
    · split
      · refine Touched.map (Touched.andThen (.sayAt hrefuted ?_) (touched_recomputeCoordinator _))
          (.aside rfl (.inr rfl))
        simpa using Utters.membershipChanged
      · exact .skip hrefuted
    · intro x hx
      obtain ⟨p, _, rfl⟩ := List.mem_map.mp hx
      exact .nodeStateChanged _ _
  obtain ⟨owed', htouches', hmem'⟩ := hann
  refine ⟨owed ++ owed', htouches.trans htouches', ?_⟩
  intro p hp
  rcases List.mem_append.mp hp with hp | hp
  · exact List.mem_append_right _ (List.mem_map.mpr ⟨p, hmem p hp, rfl⟩)
  · exact hmem' p hp

end Passing

variable (e : GroupEngine) {f : Frame}

theorem touched_mergeDigestLiveness (hkind : f.kind = .digest) :
    Touched p now (.frame f) e (e.mergeDigestLiveness f.digest now) :=
  Passing.finish (.pass (fun _ _ hd h => h.line hkind hd) (.start e))

theorem touched_mergeMembers (hkind : f.kind = .delta) :
    Touched p now (.frame f) e (e.mergeMembers f.members now) :=
  Passing.finish (.pass (fun _ _ hd h => h.section_ hkind hd) (.start e))

theorem touched_mergeMetadata (hkind : f.kind = .digest) :
    Touched p now (.frame f) e (e.mergeMetadata f.metadata) := by
  refine .each fun e d hd => ?_
  have hsaid : ∀ x ∈ (e.mergeMeta d).2, (e.mergeMeta d).1.Utters p (.frame f) x := by
    unfold mergeMeta
    dsimp only
    split <;> split <;> simp [Utters.metadataChanged]
  exact .sayAt (.single (.registered f d rfl hkind hd)) hsaid

theorem touched_onDigest (source : NodeId) (hkind : f.kind = .digest) :
    Touched p now (.frame f) e (e.onDigest source f now) := by
  have hmerged : Touched p now (.frame f) e
    (f.digest.foldl (fun e d => e.refreshContentHash d.node now)
      (e.mergeDigestLiveness f.digest now).1, (e.mergeDigestLiveness f.digest now).2) :=
    (touched_mergeDigestLiveness e hkind).map (.foldl fun _ d _ _ => .single (.hashed d.node))
  unfold onDigest
  refine Touched.andSay (Touched.andThen ?_ (touched_mergeMetadata _ hkind))
    (utters_reconcile _ _ _ _)
  refine Touched.andSay (f := fun e' => if (e.doubtedBy f.digest && !e'.leaving) ||
    decide (e.incarnation < e'.incarnation) then e'.livenessNotice source e'.localId now else [])
    hmerged ?_
  intro x hx
  split at hx
  · exact utters_livenessNotice _ _ _ _ x hx
  · cases hx

theorem touched_onDeltaRequest (source : NodeId) (frame : Frame) (now' : Time) :
    Touched p now c e (e.onDeltaRequest source frame now') := by
  have hsaid := utters_buildDeltaFrame (p := p) (c := c) e source
    (frame.wants.map fun w => (w.node, w.haveVersion)) now'
  unfold onDeltaRequest
  split
  next delta hdelta =>
    rw [hdelta] at hsaid
    exact .sayAt .nil hsaid
  next => exact .refl e

theorem touched_onDelta (source : NodeId) (hkind : f.kind = .delta) :
    Touched p now (.frame f) e (e.onDelta source f now) := by
  refine (touched_mergeMembers e hkind).andSay ?_
  dsimp only
  split
  · simp
  · simpa using utters_sendDeltaRequest _ _ _

/-! ## Failure detection -/

theorem touched_probe (now' : Time) : Touched p now c e (e.probe now') := by
  unfold probe
  split
  · exact .refl e
  dsimp only
  split
  · exact .skip (.single .ringed)
  · refine .sayAt (touches_ring rfl rfl) ?_
    simpa using free_sendProbe _ _ _ _ _ _

theorem touched_suspect (target : NodeId) : Touched p now .clock e (e.suspect target now) := by
  unfold suspect
  split
  · exact .refl e
  next m hm =>
    split
    next halive =>
      refine Touched.map (Touched.andSay (Touched.andThen (.sayAt (.single
        (.suspected target m rfl hm halive)) ?_) (touched_recomputeCoordinator _))
        (utters_livenessNotice _ _ _ _)) (.aside rfl (.inr rfl))
      simpa using Utters.membershipChanged
    · split
      next hsuspect =>
        exact .sayAt (.single (.confirmed target m rfl hm hsuspect.1))
          (utters_livenessNotice _ _ _ _)
      · exact .refl e

theorem touched_escalateIndirect (target : NodeId) :
    Touched p now .clock e (e.escalateIndirect target now) := by
  unfold escalateIndirect
  dsimp only
  split
  · exact (touched_suspect _ target).of (touches_ring rfl rfl)
  refine .sayAt (touches_ring rfl rfl) ?_
  intro x hx
  obtain ⟨p, _, rfl⟩ := List.mem_map.mp hx
  exact free_sendProbe _ _ _ _ _ _

theorem touched_expireProbe : Touched p now .clock e (e.expireProbe now) := by
  unfold expireProbe
  split
  · exact .refl e
  split
  · exact .refl e
  split
  · exact touched_escalateIndirect e _
  · exact (touched_suspect _ _).of (.aside rfl (.inr rfl))

theorem touched_accuse (node : NodeId) : Touched p now .clock e (accuse now e node) :=
  .sayAt (.single (.accused node rfl)) (utters_livenessNotice _ _ _ _)

theorem localId_of_touched {e : GroupEngine} {o : Outcome} (h : Touched p now c e o) :
    o.1.localId = e.localId := by
  obtain ⟨_, ht, _⟩ := h
  exact ht.localId_eq

theorem touched_reapSuspects : Touched p now .clock e (e.reapSuspects now) := by
  have hremote : ∀ node ∈ (e.dueMembers now).filter (fun node => e.suspectAnd node fun m =>
      decide (m.suspectDue ≤ now)), node ≠ e.localId := by
    intro node hnode
    have hsus := (List.mem_filter.mp hnode).2
    simp only [suspectAnd, Bool.and_eq_true, decide_eq_true_eq] at hsus
    exact hsus.1
  unfold reapSuspects
  dsimp only
  generalize (e.dueMembers now).filter (fun node => e.suspectAnd node fun m =>
    decide (m.suspectDue ≤ now)) = dead at hremote ⊢
  generalize (e.dueMembers now).filter (fun node => e.suspectAnd node fun m =>
    decide (now < m.suspectDue) && decide (m.accuseAt ≤ now)) = accused
  have hacc : Touched p now .clock e (Emit.each (accuse now) e accused) :=
    .each fun e node _ => touched_accuse e node
  split
  · exact hacc
  have hbury : Touches p now .clock (Emit.each (accuse now) e accused).1 [] []
      (dead.foldl (bury now) (Emit.each (accuse now) e accused).1) := by
    refine .foldl fun e' node hnode hid => .single (.buried node rfl ?_)
    rw [hid, localId_of_touched hacc]
    exact hremote node hnode
  refine Touched.map (Touched.andSay (Touched.andThen (Touched.andSay
    (f := fun _ => [.membershipChanged]) (hacc.map hbury) ?_) (touched_recomputeCoordinator _)) ?_)
    (.aside rfl (.inr rfl))
  · simpa using Utters.membershipChanged
  intro x hx
  obtain ⟨node, _, hx⟩ := List.mem_flatMap.mp hx
  exact utters_livenessNotice _ _ _ _ x hx

theorem touched_reapDead : Touched p now .clock e (e.reapDead now) := by
  unfold reapDead
  dsimp only
  split
  · exact .refl e
  refine .sayAt (.foldl fun e' node hnode hid => .single (.forgotten node rfl ?_)) ?_
  · have hstale := (List.mem_filter.mp hnode).2
    simp only [Bool.and_eq_true, decide_eq_true_eq] at hstale
    rw [hid]
    exact hstale.1
  · simpa using Utters.membershipChanged

theorem touched_reapMemberEntries (node : NodeId) :
    Touched p now .clock e (reapMemberEntries now e node) := by
  have hreap : Touch p now .clock e _ [] _ := .reaped node rfl
  refine ⟨_, (Trace.single hreap).trans (Touches.say ?_), ?_⟩
  · unfold reapMemberEntries
    split
    · simp
    dsimp only
    split
    · simp
    intro x hx
    obtain ⟨p, _, hp⟩ := List.mem_filterMap.mp hx
    split at hp
    · cases hp
    · cases hp
      exact .nodeStateChanged _ _
  · intro p hp
    rw [List.append_nil] at hp
    obtain ⟨q, hq, hqp⟩ := List.mem_filterMap.mp hp
    obtain ⟨m, hm, hq⟩ := List.mem_flatMap.mp hq
    split at hqp
    · cases hqp
    next htomb =>
      cases hqp
      have hm : e.members[node]? = some m := by simpa using hm
      have hne : (m.takeDueEntries now).2.isEmpty = false := by
        cases hlist : (m.takeDueEntries now).2 with
        | nil => rw [hlist] at hq; cases hq
        | cons => rfl
      unfold reapMemberEntries
      rw [hm]
      dsimp only
      rw [hne]
      exact List.mem_filterMap.mpr ⟨q, hq, by rw [if_neg htomb]⟩

theorem touched_reapEntries : Touched p now .clock e (e.reapEntries now) :=
  .each fun e node _ => touched_reapMemberEntries e node

/-! ## Ticks -/

theorem touched_probeIfDue (now' : Time) : Touched p now c e (e.probeIfDue now') := by
  unfold probeIfDue
  split
  · exact .refl e
  · exact (touched_probe _ _).of (.aside rfl (.inr rfl))

theorem touched_roundIfDue (hdigests : p.digests) : Touched p now .clock e (e.roundIfDue now) := by
  unfold roundIfDue
  split
  · exact .refl e
  · exact (touched_disseminateDigest _ hdigests).of (.aside rfl (.inr rfl))

theorem touched_tickLiveness : Touched p now .clock e (e.tickLiveness now) :=
  (((touched_expireProbe e).andThen (touched_reapSuspects _)).andThen (touched_reapDead _)).andThen
    ((touched_reapEntries _).andThen (touched_probeIfDue _ now))

theorem utters_armTimer : ∀ x ∈ [e.armTimer], e.Utters p c x := by
  intro x hx
  rw [List.mem_singleton.mp hx]
  exact .armTimer _

theorem touched_onTick : Touched .all now .clock e (e.onTick now) := by
  unfold onTick
  refine Touched.andSay ?_ (utters_armTimer _)
  refine Touched.andThen ?_ (touched_electionTick _ _ _)
  refine Touched.andThen ?_ (touched_roundIfDue _ trivial)
  exact (touched_tickLiveness _).of (.single .observed)

theorem touched_start : Touched .all now .clock e (e.start now) := by
  unfold start
  refine Touched.andSay ?_ (utters_armTimer _)
  refine Touched.of (Touched.of (touched_disseminateDigest _ trivial) (.aside ?_ (.inl trivial)))
    (.single .observed)
  rfl

/-! ## Messages -/

theorem touched_relayAck (source : NodeId) : Touched p now c e (e.relayAck source) := by
  unfold relayAck
  split
  · exact .refl e
  refine .sayAt (.aside rfl (.inr rfl)) ?_
  intro x hx
  obtain ⟨origin, _, rfl⟩ := List.mem_map.mp hx
  exact free_sendProbe _ _ _ _ _ _

theorem touched_onPingReq (source : NodeId) (target : Option NodeId) :
    Touched p now c e (e.onPingReq source target) := by
  unfold onPingReq
  split
  · exact .refl e
  split
  · exact .refl e
  · refine .sayAt (.aside rfl (.inr rfl)) ?_
    simpa using free_sendProbe _ _ _ _ _ _

theorem touched_clearPendingIf (target : NodeId) :
    Touches p now c e [] [] (e.clearPendingIf target) := by
  unfold clearPendingIf
  split
  · exact .aside rfl (.inr rfl)
  · exact .nil

theorem touched_onFrame (source : NodeId) (f : Frame) (hlead : p = .all ∨ f.kind.isLead = false) :
    Touched p now (.frame f) e (e.onFrame source f now) := by
  unfold onFrame
  split
  next hkind => exact touched_onDigest e source hkind
  next => exact touched_onDeltaRequest e source f now
  next hkind => exact touched_onDelta e source hkind
  next =>
    refine .sayAt .nil ?_
    simpa using free_sendProbe _ _ _ _ _ _
  next => exact (touched_relayAck _ source).of (touched_clearPendingIf e source)
  next => exact touched_onPingReq e source _
  next =>
    split
    · exact .skip (touched_clearPendingIf e _)
    · exact .refl e
  all_goals
    rename_i hkind
    obtain rfl := hlead.resolve_right fun h => by rw [hkind] at h; cases h
    exact touched_onLead e now rfl

/-! ## Commands -/

theorem touched_author {e : GroupEngine} {cmd : Command} {w : EntryWrite} {m : Member}
    (hw : cmd.write = some w) (hm : e.members[e.localId]? = some m) :
    Touched p now (.command cmd) e ((e.author m w.key (StateEntry.adopted
      (satAdd m.maxStateVersion 1) w.value w.ttlMs w.tombstone e.nowHint)).announceEntry
        w.key) := by
  have hauthor : Touch p now (.command cmd) e _ [] _ := .authored cmd w m rfl hw hm
  have hid : (e.author m w.key (StateEntry.adopted (satAdd m.maxStateVersion 1) w.value w.ttlMs
      w.tombstone e.nowHint)).localId = e.localId := congrArg Identity.localId hauthor.identity_eq
  refine Touched.andThen ⟨_, (Trace.single hauthor).trans (Touches.say ?_), ?_⟩
    (touched_eagerPush _)
  · simpa using Utters.nodeStateChanged _ _
  intro p hp
  rw [List.mem_singleton.mp hp, hid]
  exact List.mem_singleton_self _

theorem touched_setLocalEntry {cmd : Command} (key : String) (value : List UInt8)
    (ttlMs : Option Nat) (hw : cmd.write = some ⟨key, value, ttlMs.getD 0, false⟩) :
    Touched p now (.command cmd) e (e.setLocalEntry key value ttlMs) := by
  unfold setLocalEntry
  split
  · exact .refl e
  next m hm =>
    have hauthor : Touched p now (.command cmd) e _ := touched_author hw hm
    exact hauthor

theorem touched_deleteLocalEntry (key : String) :
    Touched p now (.command (.deleteLocalEntry key)) e (e.deleteLocalEntry key) := by
  unfold deleteLocalEntry
  split
  · exact .refl e
  next m hm =>
    have hwrite : (Command.deleteLocalEntry key).write = some ⟨key, [], 0, true⟩ := rfl
    have hauthor : Touched p now (.command (.deleteLocalEntry key)) e _ := touched_author hwrite hm
    exact hauthor

theorem touched_leave : Touched .all now (.command .leave) e e.leave := by
  have hgive : Touched .all now (.command .leave) e e.electionOnLeave :=
    (electoral_electionOnLeave e).touched
  unfold leave
  generalize e.electionOnLeave = out at hgive ⊢
  exact touched_announced hgive (.single (.left rfl)) (fun _ => rfl) fun _ => rfl

theorem touched_addPeer (node : NodeId) :
    Touched p now (.command (.addPeer node)) e (e.addPeer node) := by
  unfold addPeer
  split
  · exact .refl e
  next hnew =>
    obtain ⟨hne, hnot⟩ := not_or.mp hnew
    refine touched_announced (.refl e) (.single (.met node e.nowHint (.inr rfl) hne ?_))
      (fun _ => rfl) fun _ => rfl
    simpa using hnot

theorem touched_apply (cmd : Command) (hlead : p = .all ∨ cmd.isLead = false) :
    Touched p now (.command cmd) e (e.apply cmd) := by
  cases cmd with
  | updateMetadata key value =>
    refine .sayAt (.single (.wrote key value rfl)) ?_
    simpa using Utters.metadataChanged _ _
  | setLocalState state => exact touched_setLocalEntry e _ _ none rfl
  | setLocalEntry key value ttlMs => exact touched_setLocalEntry e key value ttlMs rfl
  | deleteLocalEntry key => exact touched_deleteLocalEntry e key
  | leave =>
    obtain rfl := hlead.resolve_right nofun
    exact touched_leave e
  | addPeer node => exact touched_addPeer e node
  | setBootstrapContacts contacts => exact .skip (.single (.contacted contacts rfl))
  | anchorActivated epoch leaseUntil =>
    obtain rfl := hlead.resolve_right nofun
    exact (electoral_onAnchorActivated e _ _).touched
  | anchorObserved epoch host =>
    obtain rfl := hlead.resolve_right nofun
    exact (electoral_onAnchorObserved e _ _).touched

end GroupEngine

/-! ## Events -/

/-- When an event is handled: commands carry no time. -/
def Event.instant : Event → Time
  | .start now | .tick now | .message _ _ now => now
  | .command _ => 0

/-- What an event is to an engine of `group`, if the engine acts on it. -/
def Event.cause (group : GroupId) : Event → Option Cause
  | .start _ | .tick _ => some .clock
  | .message _ bytes _ => ((Wire.decode bytes).filter fun f =>
    decide (f.group = group) && GroupEngine.statusesKnown f).map .frame
  | .command cmd => some (.command cmd)

/-- A call is a row of touches of its cause, and without one it only observes the time. -/
theorem GroupEngine.touched_handle (e : GroupEngine) (ev : Event) :
    (∃ c, ev.cause e.group = some c ∧ Touched .all ev.instant c e (e.handle ev)) ∨
      e.handle ev = (e.observeNow ev.instant, []) := by
  cases ev with
  | start now => exact .inl ⟨.clock, rfl, touched_start e⟩
  | tick now => exact .inl ⟨.clock, rfl, touched_onTick e⟩
  | command cmd => exact .inl ⟨.command cmd, rfl, touched_apply e cmd (.inl rfl)⟩
  | message source bytes now =>
    unfold handle onMessage
    dsimp only
    cases hdec : Wire.decode bytes with
    | none => exact .inr rfl
    | some f =>
      dsimp only
      split
      · exact .inr rfl
      next hgroup =>
        split
        · exact .inr rfl
        next hknown =>
          refine .inl ⟨.frame f, ?_, (touched_onFrame _ source f (.inl rfl)).of (.single .observed)⟩
          have hgroup : f.group = e.group := not_not.mp hgroup
          have hknown : statusesKnown f = true := by simpa using hknown
          simp [Event.cause, hdec, hgroup, hknown]

theorem GroupEngine.handle_keeps {P : GroupEngine → Prop} {e : GroupEngine} {ev : Event}
    (htouch : ∀ {c : Cause} {e e' : GroupEngine} {owed : List (NodeId × String)}
      {said : List Effect}, Touch .all ev.instant c e owed said e' → P e → P e')
    (he : P e) : P (e.handle ev).1 := by
  rcases e.touched_handle ev with ⟨c, _, owed, htouches, _⟩ | hquiet
  · exact htouches.keeps htouch he
  · rw [hquiet]
    exact htouch (c := .clock) .observed he

end Groupnet
